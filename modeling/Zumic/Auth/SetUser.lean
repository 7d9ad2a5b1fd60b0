/- What a failed call of `acl_setuser` or `create_user` leaves behind (`auth/acl.rs`,
`auth/manager.rs`). -/

import Zumic.Auth.Credentials
import Zumic.Auth.Patterns

namespace Zumic.Auth

open Lib Lib.ByteString

namespace PatternList

/-- The rule that adds a pattern to the list. -/
def rule : PatternList → Bytes → AclRule
  | key => .allowKeyPattern
  | denyKey => .denyKeyPattern
  | channel => .allowChannelPattern
  | denyChannel => .denyChannelPattern

def ofRule : PatternList → AclRule → Option Bytes
  | key, .allowKeyPattern p => some p
  | denyKey, .denyKeyPattern p => some p
  | channel, .allowChannelPattern p => some p
  | denyChannel, .denyChannelPattern p => some p
  | _, _ => none

/-- Adds a glob to the raw patterns. -/
def add : PatternList → AclUser → Bytes → AclUser
  | key, u, p => { u with rawKeyPatterns := u.rawKeyPatterns ++ [p] }
  | denyKey, u, p => { u with rawDenyKeyPatterns := u.rawDenyKeyPatterns ++ [p] }
  | channel, u, p => { u with rawChannelPatterns := u.rawChannelPatterns ++ [p] }
  | denyChannel, u, p => { u with rawDenyChannelPatterns := u.rawDenyChannelPatterns ++ [p] }

def store : PatternList → AclUser → List Bytes → AclUser
  | key, u, set => { u with keyPatterns := set }
  | denyKey, u, set => { u with denyKeyPatterns := set }
  | channel, u, set => { u with channelPatterns := set }
  | denyChannel, u, set => { u with denyChannelPatterns := set }

/-- Adds a pattern to the list and to its compiled set. -/
def join (kind : PatternList) (u : AclUser) (p : Bytes) : AclUser :=
  kind.store (kind.add u p) (kind.raw u ++ [p])

theorem ofRule_eq_some {kind : PatternList} {rule : AclRule} {p : Bytes} :
    kind.ofRule rule = some p ↔ rule = kind.rule p := by
  cases kind <;> cases rule <;> simp [ofRule, PatternList.rule]

end PatternList

/-- A user with one more rule. -/
def AclUser.withRule (u : AclUser) : AclRule → AclUser
  | .on => { u with enabled := true }
  | .off => { u with enabled := false }
  | .passwordHash h => { u with passwordHashes := u.passwordHashes ++ [h] }
  | .allowCategory c => { u with allowedCategories := u.allowedCategories ||| c }
  | .denyCategory c => { u with allowedCategories := CmdCategory.remove u.allowedCategories c }
  | .allowCommand i => { u with allowedCommands := u.allowedCommands ||| commandBit i }
  | .denyCommand i => { u with deniedCommands := u.deniedCommands ||| commandBit i }
  | .allowKeyPattern p => PatternList.key.join u p
  | .denyKeyPattern p => PatternList.denyKey.join u p
  | .allowChannelPattern p => PatternList.channel.join u p
  | .denyChannelPattern p => PatternList.denyChannel.join u p
  | .noPass => u

/-- A user without any rule. -/
def AclUser.bare (username : Bytes) : AclUser where
  username := username
  enabled := false
  passwordHashes := []
  allowedCategories := 0
  allowedCommands := 0
  deniedCommands := 0
  rawKeyPatterns := []
  rawDenyKeyPatterns := []
  rawChannelPatterns := []
  rawDenyChannelPatterns := []
  keyPatterns := []
  denyKeyPatterns := []
  channelPatterns := []
  denyChannelPatterns := []

/-- The user that a list of rules describes. -/
def described (username : Bytes) (rules : List AclRule) : AclUser :=
  rules.foldl AclUser.withRule (.bare username)

section

variable (globs : Globs)

/-- The empty set of globs and the set of `*` can be compiled. -/
structure Globs.Standard : Prop where
  none : globs.builds [] = true
  all : globs.builds [bytesOf "*"] = true

/-- The pattern of the rule, if it has one, is a glob that can be compiled beside the earlier
patterns of its list. -/
def Compiles (before : List AclRule) (rule : AclRule) : Prop :=
  ∀ (kind : PatternList) (p : Bytes), rule = kind.rule p →
    globs.isGlob p = true ∧ globs.builds (before.filterMap kind.ofRule ++ [p]) = true

/-- The first rule whose pattern does not compile, and the rules before it. -/
structure Breaks (rules before : List AclRule) (rule : AclRule) : Prop where
  listed : before ++ [rule] <+: rules
  earlier : ∀ b r, b ++ [r] <+: before → Compiles globs b r
  broken : ¬ Compiles globs before rule

/-- The user that is left when the pattern of a rule does not compile: a glob that does not go with
the others stays in the raw list. -/
def AclUser.halted (u : AclUser) : AclRule → AclUser
  | .allowKeyPattern p => if globs.isGlob p then PatternList.key.add u p else u
  | .denyKeyPattern p => if globs.isGlob p then PatternList.denyKey.add u p else u
  | .allowChannelPattern p => if globs.isGlob p then PatternList.channel.add u p else u
  | .denyChannelPattern p => if globs.isGlob p then PatternList.denyChannel.add u p else u
  | _ => u

end

section

variable {globs : Globs}

theorem described_append (username : Bytes) (rules : List AclRule) (rule : AclRule) :
    described username (rules ++ [rule]) = (described username rules).withRule rule := by
  simp [described]

theorem lists_withRule (kind : PatternList) {u : AclUser} (even : kind.compiled u = kind.raw u)
    (rule : AclRule) :
    kind.raw (u.withRule rule) = kind.raw u ++ (kind.ofRule rule).toList ∧
      kind.compiled (u.withRule rule) = kind.raw (u.withRule rule) := by
  cases rule <;> cases kind <;>
    simp_all [AclUser.withRule, PatternList.ofRule, PatternList.join, PatternList.store,
      PatternList.add, PatternList.raw, PatternList.compiled]

theorem lists_described (kind : PatternList) (username : Bytes) (rules : List AclRule) :
    kind.raw (described username rules) = rules.filterMap kind.ofRule ∧
      kind.compiled (described username rules) = kind.raw (described username rules) := by
  induction rules using List.reverseRecOn with
  | nil => cases kind <;> exact ⟨rfl, rfl⟩
  | append_singleton rules rule ih =>
      obtain ⟨raw, even⟩ := ih
      obtain ⟨more, even'⟩ := lists_withRule kind even rule
      rw [described_append, List.filterMap_append]
      refine ⟨?_, even'⟩
      rw [more, raw]
      cases found : kind.ofRule rule <;> simp [found]

theorem applyRule_pattern (kind : PatternList) (p : Bytes) :
    applyRule globs (kind.rule p) =
      addPattern globs kind.add (rebuild globs kind.raw kind.store) p := by
  cases kind <;> rfl

theorem withRule_pattern (kind : PatternList) (p : Bytes) (u : AclUser) :
    u.withRule (kind.rule p) = kind.join u p := by
  cases kind <;> rfl

theorem halted_pattern (kind : PatternList) (p : Bytes) (u : AclUser) :
    u.halted globs (kind.rule p) = if globs.isGlob p then kind.add u p else u := by
  cases kind <;> rfl

theorem raw_add (kind : PatternList) (u : AclUser) (p : Bytes) :
    kind.raw (kind.add u p) = kind.raw u ++ [p] := by
  cases kind <;> rfl

theorem rule_injective {kind kind' : PatternList} {p p' : Bytes}
    (same : kind.rule p = kind'.rule p') : kind = kind' ∧ p = p' := by
  cases kind <;> cases kind' <;> simp_all [PatternList.rule]

theorem compiles_pattern {before : List AclRule} {kind : PatternList} {p : Bytes} :
    Compiles globs before (kind.rule p) ↔
      globs.isGlob p = true ∧ globs.builds (before.filterMap kind.ofRule ++ [p]) = true := by
  constructor
  · intro compiles
    exact compiles kind p rfl
  · rintro both kind' p' same
    obtain ⟨rfl, rfl⟩ := rule_injective same
    exact both

theorem applyRule_plain {rule : AclRule} (plain : ∀ (kind : PatternList) (p : Bytes),
    rule ≠ kind.rule p) (u : AclUser) : applyRule globs rule u = (u.withRule rule, .ok ()) := by
  cases rule with
  | allowKeyPattern p => exact absurd rfl (plain .key p)
  | denyKeyPattern p => exact absurd rfl (plain .denyKey p)
  | allowChannelPattern p => exact absurd rfl (plain .channel p)
  | denyChannelPattern p => exact absurd rfl (plain .denyChannel p)
  | _ => rfl

theorem applyRule_described (username : Bytes) (before : List AclRule) (rule : AclRule) :
    (Compiles globs before rule → applyRule globs rule (described username before) =
        (described username (before ++ [rule]), .ok ())) ∧
      (¬ Compiles globs before rule → ∃ e, applyRule globs rule (described username before) =
        ((described username before).halted globs rule, .error e)) := by
  rw [described_append]
  by_cases pattern : ∃ (kind : PatternList) (p : Bytes), rule = kind.rule p
  · obtain ⟨kind, p, rfl⟩ := pattern
    have listed := (lists_described kind username before).1
    have raw : kind.raw (kind.add (described username before) p) =
        before.filterMap kind.ofRule ++ [p] := by
      rw [raw_add, listed]
    rw [compiles_pattern, applyRule_pattern, withRule_pattern, halted_pattern]
    unfold addPattern rebuild rebuildGlobset PatternList.join
    rw [raw, listed]
    constructor
    · rintro ⟨glob, builds⟩
      simp [glob, builds]
    · intro broken
      by_cases glob : globs.isGlob p = true
      · have unbuilt : ¬ globs.builds (before.filterMap kind.ofRule ++ [p]) = true := fun builds =>
          broken ⟨glob, builds⟩
        simp [glob, unbuilt]
      · simp [glob]
  · have plain (kind : PatternList) (p : Bytes) : rule ≠ kind.rule p := fun same =>
      pattern ⟨kind, p, same⟩
    constructor
    · intro _
      exact applyRule_plain plain _
    · intro broken
      refine absurd ?_ broken
      intro kind p same
      exact absurd same (plain kind p)

theorem applyRules_described (username : Bytes) (before rules : List AclRule)
    (compile : ∀ b r, b ++ [r] <+: rules → Compiles globs (before ++ b) r) :
    applyRules globs rules (described username before) =
      (described username (before ++ rules), .ok ()) := by
  induction rules generalizing before with
  | nil => rw [List.append_nil]; rfl
  | cons rule rules ih =>
      have first := (applyRule_described username before rule).1
        (by simpa using compile [] rule (by simp))
      have rest := ih (before ++ [rule]) fun b r listed => by
        rw [List.append_assoc]
        exact compile (rule :: b) r (by simpa using listed)
      simp only [applyRules, UserM.andThen, first]
      rw [rest, List.append_assoc]
      rfl

theorem applyRules_append (first second : List AclRule) (u : AclUser) :
    applyRules globs (first ++ second) u =
      UserM.andThen (applyRules globs first) (applyRules globs second) u := by
  induction first generalizing u with
  | nil => rfl
  | cons rule first ih =>
      simp only [List.cons_append, applyRules, UserM.andThen]
      rcases applyRule globs rule u with ⟨mid, ⟨e⟩ | ⟨⟨⟩⟩⟩
      · rfl
      · exact ih mid

theorem applyRules_breaks (username : Bytes) {rules before : List AclRule} {rule : AclRule}
    (breaks : Breaks globs rules before rule) : ∃ e, applyRules globs rules (.bare username) =
      ((described username before).halted globs rule, .error e) := by
  obtain ⟨after, rfl⟩ := breaks.listed
  obtain ⟨e, stopped⟩ := (applyRule_described username before rule).2 breaks.broken
  have done := applyRules_described username [] before fun b r listed => by
    simpa using breaks.earlier b r listed
  refine ⟨e, ?_⟩
  rw [List.append_assoc, applyRules_append, UserM.andThen,
    show AclUser.bare username = described username [] from rfl, done]
  simp [applyRules, UserM.andThen, stopped]

theorem compile_or_breaks (globs : Globs) (rules : List AclRule) :
    (∀ b r, b ++ [r] <+: rules → Compiles globs b r) ∨
      ∃ before rule, Breaks globs rules before rule := by
  induction rules using List.reverseRecOn with
  | nil => exact .inl fun b r listed => absurd (List.prefix_nil.mp listed) (by simp)
  | append_singleton rules rule ih =>
      rcases ih with all | ⟨before, r, breaks⟩
      · by_cases last : Compiles globs rules rule
        · refine .inl fun b r listed => ?_
          rcases List.prefix_concat_iff.mp listed with whole | earlier
          · obtain ⟨rfl, rfl⟩ := List.append_inj' whole rfl |>.imp_right List.singleton_inj.mp
            exact last
          · exact all b r earlier
        · exact .inr ⟨rules, rule, List.prefix_rfl, all, last⟩
      · exact .inr ⟨before, r, breaks.listed.trans (List.prefix_append _ _), breaks.earlier,
          breaks.broken⟩

theorem breaks_unique {rules before before' : List AclRule} {rule rule' : AclRule}
    (breaks : Breaks globs rules before rule) (breaks' : Breaks globs rules before' rule') :
    before = before' ∧ rule = rule' := by
  have ordered {before before' : List AclRule} {rule rule' : AclRule}
      (breaks : Breaks globs rules before rule) (breaks' : Breaks globs rules before' rule') :
      ¬ before.length < before'.length := by
    intro shorter
    have within : before ++ [rule] <+: before' := by
      refine List.prefix_of_prefix_length_le breaks.listed
        ((List.prefix_append before' [rule']).trans breaks'.listed) ?_
      simpa using shorter
    exact breaks.broken (breaks'.earlier before rule within)
  have length : before.length = before'.length := by
    have := ordered breaks breaks'
    have := ordered breaks' breaks
    omega
  have same : before ++ [rule] = before' ++ [rule'] := by
    refine (List.prefix_of_prefix_length_le breaks.listed breaks'.listed ?_).eq_of_length ?_ <;>
      simp [length]
  exact List.append_inj' same rfl |>.imp_right List.singleton_inj.mp

theorem builds_described (standard : globs.Standard) {rules : List AclRule}
    (compile : ∀ b r, b ++ [r] <+: rules → Compiles globs b r) (kind : PatternList) :
    globs.builds (rules.filterMap kind.ofRule) = true := by
  induction rules using List.reverseRecOn with
  | nil => exact standard.none
  | append_singleton rules rule ih =>
      rw [List.filterMap_append]
      cases found : kind.ofRule rule with
      | none =>
          have earlier := ih fun b r listed =>
            compile b r (listed.trans (List.prefix_append _ _))
          simpa [found] using earlier
      | some p =>
          have carries := PatternList.ofRule_eq_some.mp found
          have last := compile rules rule List.prefix_rfl kind p carries
          simpa [found] using last.2

theorem rebuild_described (standard : globs.Standard) (username : Bytes) {rules : List AclRule}
    (compile : ∀ b r, b ++ [r] <+: rules → Compiles globs b r) :
    (rebuildAllPatterns globs).andThen (rebuildAllDenyPatterns globs) (described username rules) =
      (described username rules, .ok ()) := by
  have one (kind : PatternList) :
      rebuild globs kind.raw kind.store (described username rules) =
        (described username rules, .ok ()) := by
    obtain ⟨raw, even⟩ := lists_described kind username rules
    have builds := builds_described standard compile kind
    unfold rebuild rebuildGlobset
    rw [raw, if_pos builds, ← raw, ← even]
    generalize described username rules = u
    cases kind <;> rfl
  simp only [UserM.andThen, rebuildAllPatterns, rebuildAllDenyPatterns]
  rw [show rebuildKeys globs _ = _ from one .key]
  simp only
  rw [show rebuildChannels globs _ = _ from one .channel]
  simp only
  rw [show rebuildDenyKeys globs _ = _ from one .denyKey]
  simp only
  rw [show rebuildDenyChannels globs _ = _ from one .denyChannel]

theorem resetRules_eq (standard : globs.Standard) (u : AclUser) :
    u.resetRules globs = .bare u.username := by
  simp [AclUser.resetRules, rebuildAllPatterns, rebuildAllDenyPatterns, UserM.andThen, rebuildKeys,
    rebuildChannels, rebuildDenyKeys, rebuildDenyChannels, rebuild, rebuildGlobset, standard.none,
    AclUser.bare]

end

theorem fromStr_panicked_iff {s : Bytes} :
    AclRule.fromStr s = .error .panicked ↔ splitAtOne s = none := by
  have commands (build : Nat → AclRule) (rest : Bytes) :
      parseCommandRule build rest ≠ .error .panicked := by
    unfold parseCommandRule
    split <;> simp
  constructor
  · intro panicked
    unfold AclRule.fromStr at panicked
    split at panicked
    · cases panicked
    split at panicked
    · cases panicked
    split at panicked
    · cases panicked
    split at panicked
    case h_1 cut => exact cut
    case h_4 => exact absurd panicked (commands _ _)
    case h_8 => exact absurd panicked (commands _ _)
    all_goals cases panicked
  · intro cut
    have named : ∀ name ∈ ["on", "off", "nopass"], s ≠ bytesOf name := by
      rintro name member rfl
      have cuts : ∀ name ∈ ["on", "off", "nopass"], splitAtOne (bytesOf name) ≠ none := by
        decide +kernel
      exact cuts name member cut
    unfold AclRule.fromStr
    rw [if_neg (named _ (by simp)), if_neg (named _ (by simp)), if_neg (named _ (by simp)), cut]

def IsRule (s : Bytes) : Prop := ∃ rule, AclRule.fromStr s = .ok rule

theorem parseRules_ok_iff {rules : List Bytes} {parsed : List AclRule} :
    parseRules rules = .ok parsed ↔
      List.Forall₂ (fun s rule => AclRule.fromStr s = .ok rule) rules parsed := by
  induction rules generalizing parsed with
  | nil => simp [parseRules, eq_comm]
  | cons s rules ih =>
      rw [List.forall₂_cons_left_iff]
      constructor
      · intro read
        obtain ⟨rule, rest, first, others, rfl⟩ := parseRules_cons read
        exact ⟨rule, rest, first, ih.mp others, rfl⟩
      · rintro ⟨rule, rest, first, others, rfl⟩
        rw [parseRules, first, ih.mpr others]

theorem parseRules_panicked_iff {rules : List Bytes} :
    parseRules rules = .error .panicked ↔
      ∃ before s, before ++ [s] <+: rules ∧ (∀ r ∈ before, IsRule r) ∧ splitAtOne s = none := by
  induction rules with
  | nil => simp [parseRules]
  | cons s rules ih =>
      unfold parseRules
      cases first : AclRule.fromStr s with
      | error e =>
          constructor
          · intro panicked
            obtain rfl := Except.error.inj panicked
            exact ⟨[], s, by simp, by simp, fromStr_panicked_iff.mp first⟩
          · rintro ⟨before, s', listed, read, cut⟩
            cases before with
            | nil =>
                obtain rfl : s' = s := by simpa using listed
                rw [← first, fromStr_panicked_iff.mpr cut]
            | cons r before =>
                obtain ⟨rfl, -⟩ := List.cons_prefix_cons.mp listed
                obtain ⟨rule, parsed⟩ := read r (by simp)
                exact absurd (first.symm.trans parsed) (by simp)
      | ok rule =>
          have tail : (∃ before s', before ++ [s'] <+: s :: rules ∧ (∀ r ∈ before, IsRule r) ∧
              splitAtOne s' = none) ↔ parseRules rules = .error .panicked := by
            rw [ih]
            constructor
            · rintro ⟨before, s', listed, read, cut⟩
              cases before with
              | nil =>
                  obtain rfl : s' = s := by simpa using listed
                  exact absurd (first.symm.trans (fromStr_panicked_iff.mpr cut)) (by simp)
              | cons r before =>
                  obtain ⟨rfl, later⟩ := List.cons_prefix_cons.mp listed
                  exact ⟨before, s', later, fun r member => read r (by simp [member]), cut⟩
            · rintro ⟨before, s', listed, read, cut⟩
              refine ⟨s :: before, s', List.cons_prefix_cons.mpr ⟨rfl, listed⟩, ?_, cut⟩
              rintro r member
              rcases List.mem_cons.mp member with rfl | member
              · exact ⟨rule, first⟩
              · exact read r member
          rw [tail]
          cases parseRules rules <;> simp

section

variable (globs : Globs)

/-- The call returns, and where it returns an error the user is as before. -/
structure SetsWhole (acl : Acl) (username : Bytes) (rules : List Bytes) : Prop where
  returns : (acl.aclSetuser globs username rules).2 ≠ .error .panicked
  restores : ∀ e, (acl.aclSetuser globs username rules).2 = .error (.error e) →
    (acl.aclSetuser globs username rules).1.aclGetuser username = acl.aclGetuser username

/-- Every text up to the first that is no rule can be split after its first byte, and if all are
rules, their patterns compile, or else the user already is what the failure leaves. -/
structure Careful (acl : Acl) (username : Bytes) (rules : List Bytes) : Prop where
  splits : ∀ before s, before ++ [s] <+: rules → (∀ r ∈ before, IsRule r) → splitAtOne s ≠ none
  compiles : ∀ parsed before rule,
    List.Forall₂ (fun s rule => AclRule.fromStr s = .ok rule) rules parsed →
    Breaks globs parsed before rule →
    ∃ user, acl.aclGetuser username = some user ∧
      user = (described user.username before).halted globs rule

variable {globs}

theorem new_standard (standard : globs.Standard) (username : Bytes) :
    ∃ u, AclUser.new globs username = .ok u := by
  simp [AclUser.new, AclUser.blank, rebuildAllPatterns, rebuildAllDenyPatterns, UserM.andThen,
    rebuildKeys, rebuildChannels, rebuildDenyKeys, rebuildDenyChannels, rebuild, rebuildGlobset,
    standard.none, standard.all]

theorem getOrCreate_standard (standard : globs.Standard) (acl : Acl) (username : Bytes) :
    ∃ found, acl.getOrCreate globs username = .ok found ∧
      ∀ user, acl.aclGetuser username = some user → user = found := by
  unfold Acl.getOrCreate
  cases present : acl.aclGetuser username with
  | some user => exact ⟨user, rfl, fun user' same => (Option.some.inj same).symm⟩
  | none =>
      obtain ⟨u, made⟩ := new_standard standard username
      exact ⟨u, by simp [made], by simp⟩

/-- What a call with rules that parse can do: it stores the user that they describe, or the one that
is left at the first pattern that does not compile. -/
theorem aclSetuser_parsed (standard : globs.Standard) {acl : Acl} {username : Bytes}
    {rules : List Bytes} {parsed : List AclRule} {found : AclUser}
    (read : parseRules rules = .ok parsed) (user : acl.getOrCreate globs username = .ok found) :
    ((∀ b r, b ++ [r] <+: parsed → Compiles globs b r) ∧
        acl.aclSetuser globs username rules =
          (⟨Assoc.insert acl.users username (described found.username parsed)⟩, .ok ())) ∨
      ∃ before rule e, Breaks globs parsed before rule ∧
        acl.aclSetuser globs username rules =
          (⟨Assoc.insert acl.users username
            ((described found.username before).halted globs rule)⟩, .error (.error e)) := by
  unfold Acl.aclSetuser
  rw [read]
  simp only [user, resetRules_eq standard]
  rcases compile_or_breaks globs parsed with all | ⟨before, rule, breaks⟩
  · refine .inl ⟨all, ?_⟩
    have applied := applyRules_described found.username [] parsed all
    rw [UserM.andThen, show AclUser.bare found.username = described found.username [] from rfl,
      applied]
    simp only [List.nil_append, rebuild_described standard found.username all]
  · obtain ⟨e, stopped⟩ := applyRules_breaks found.username breaks
    refine .inr ⟨before, rule, e, breaks, ?_⟩
    simp [UserM.andThen, stopped]

theorem aclSetuser_unread {acl : Acl} {username : Bytes} {rules : List Bytes} {stop : Stop}
    (read : parseRules rules = .error stop) :
    acl.aclSetuser globs username rules = (acl, .error stop) := by
  unfold Acl.aclSetuser
  rw [read]

theorem splits_of_read {rules before : List Bytes} {s : Bytes}
    (read : parseRules rules ≠ .error .panicked) (listed : before ++ [s] <+: rules)
    (early : ∀ r ∈ before, IsRule r) : splitAtOne s ≠ none := by
  intro cut
  exact read (parseRules_panicked_iff.mpr ⟨before, s, listed, early, cut⟩)

theorem setsWhole_unread {acl : Acl} {username : Bytes} {rules : List Bytes} {stop : Stop}
    (read : parseRules rules = .error stop) :
    SetsWhole globs acl username rules ↔ Careful globs acl username rules := by
  have outcome : acl.aclSetuser globs username rules = (acl, .error stop) :=
    aclSetuser_unread read
  cases stop with
  | panicked =>
      obtain ⟨before, s, listed, early, cut⟩ := parseRules_panicked_iff.mp read
      refine iff_of_false (fun whole => ?_) (fun careful => ?_)
      · exact whole.returns (by rw [outcome])
      · exact careful.splits before s listed early cut
  | error e =>
      refine iff_of_true ⟨by simp [outcome], by simp [outcome]⟩ ⟨?_, ?_⟩
      · intro before s listed early
        exact splits_of_read (by simp [read]) listed early
      · intro parsed before rule read' _
        exact absurd (read.symm.trans (parseRules_ok_iff.mpr read')) (by simp)

theorem setsWhole_parsed (standard : globs.Standard) {acl : Acl} {username : Bytes}
    {rules : List Bytes} {parsed : List AclRule} (read : parseRules rules = .ok parsed) :
    SetsWhole globs acl username rules ↔ Careful globs acl username rules := by
  have splits : ∀ before s, before ++ [s] <+: rules → (∀ r ∈ before, IsRule r) →
      splitAtOne s ≠ none :=
    fun before s listed early => splits_of_read (by simp [read]) listed early
  obtain ⟨found, user, present⟩ := getOrCreate_standard standard acl username
  rcases aclSetuser_parsed standard read user with
    ⟨all, outcome⟩ | ⟨before, rule, e, breaks, outcome⟩
  · refine iff_of_true ⟨by simp [outcome], by simp [outcome]⟩ ⟨splits, ?_⟩
    intro parsed' before rule read' breaks
    obtain rfl := Except.ok.inj (read.symm.trans (parseRules_ok_iff.mpr read'))
    exact absurd (all before rule breaks.listed) breaks.broken
  · have stored : (acl.aclSetuser globs username rules).1.aclGetuser username =
        some ((described found.username before).halted globs rule) := by
      rw [outcome, Acl.aclGetuser, Assoc.get_insert, if_pos rfl]
    constructor
    · rintro ⟨-, restores⟩
      have same := (restores e (by rw [outcome])).symm.trans stored
      refine ⟨splits, ?_⟩
      intro parsed' before' rule' read' breaks'
      obtain rfl := Except.ok.inj (read.symm.trans (parseRules_ok_iff.mpr read'))
      obtain ⟨rfl, rfl⟩ := breaks_unique breaks breaks'
      have which := present _ same
      rw [which] at same
      exact ⟨found, same, which.symm⟩
    · rintro ⟨-, compiles⟩
      have texts := parseRules_ok_iff.mp read
      obtain ⟨user, there, same⟩ := compiles parsed before rule texts breaks
      refine ⟨by simp [outcome], fun e' failed => ?_⟩
      rw [stored, there, same, present user there]

theorem setsWhole_iff_careful (standard : globs.Standard) (acl : Acl) (username : Bytes)
    (rules : List Bytes) :
    SetsWhole globs acl username rules ↔ Careful globs acl username rules := by
  cases read : parseRules rules with
  | error stop => exact setsWhole_unread read
  | ok parsed => exact setsWhole_parsed standard read

end

section

variable (globs : Globs) (argon2 : Argon2)

/-- Where `create_user` returns an error, the user is as before. -/
def CreatesWhole (m : AuthManager) (salt username password : Bytes) (permissions : List Bytes) :
    Prop :=
  ∀ e, (m.createUser globs argon2 salt username password permissions).2 = .error (.error e) →
    (m.createUser globs argon2 salt username password permissions).1.acl.aclGetuser username =
      m.acl.aclGetuser username

/-- For a new user, whose rules can all be read, their patterns compile. -/
def CreatesCareful (m : AuthManager) (salt username password : Bytes) (permissions : List Bytes) :
    Prop :=
  ∀ hash, hashPassword argon2 salt password m.pepper = .ok hash →
    m.acl.aclGetuser username = none → ∀ parsed,
      List.Forall₂ (fun s rule => AclRule.fromStr s = .ok rule)
        ([AuthManager.hashRule hash, bytesOf "on"] ++ permissions) parsed →
      ∀ before rule, ¬ Breaks globs parsed before rule

variable {globs argon2}

theorem aclSetuser_halt (m : AuthManager) (username : Bytes) (rules : List Bytes) :
    (∃ e, (m.aclSetuser globs username rules).2 = .error (.error e)) ↔
      ∃ e, (m.acl.aclSetuser globs username rules).2 = .error (.error e) := by
  unfold AuthManager.aclSetuser
  rcases m.acl.aclSetuser globs username rules with ⟨acl, ⟨e | ⟨⟩⟩ | ⟨⟨⟩⟩⟩ <;> simp [Stop.halt]

theorem createsWhole_iff_careful (standard : globs.Standard) (m : AuthManager)
    (salt username password : Bytes) (permissions : List Bytes) :
    CreatesWhole globs argon2 m salt username password permissions ↔
      CreatesCareful globs argon2 m salt username password permissions := by
  unfold CreatesWhole CreatesCareful AuthManager.createUser
  cases hashed : hashPassword argon2 salt password m.pepper with
  | error e => simp
  | ok hash =>
      cases present : m.acl.aclGetuser username with
      | some user => simp [present]
      | none =>
          simp only [Option.isSome_none, Bool.false_eq_true, if_false, Except.ok.injEq,
            forall_eq', forall_const]
          generalize [AuthManager.hashRule hash, bytesOf "on"] ++ permissions = rules
          rw [← forall_exists_index (p := fun e =>
            (m.aclSetuser globs username rules).2 = .error (.error e))
            (q := fun _ => (m.aclSetuser globs username rules).1.acl.aclGetuser username = none)]
          rw [aclSetuser_halt, aclSetuser_acl]
          cases read : parseRules rules with
          | error stop =>
              have outcome : m.acl.aclSetuser globs username rules = (m.acl, .error stop) :=
                aclSetuser_unread read
              refine iff_of_true (fun _ => by rw [outcome, present]) ?_
              intro parsed read'
              exact absurd (read.symm.trans (parseRules_ok_iff.mpr read')) (by simp)
          | ok parsed =>
              obtain ⟨found, user, -⟩ := getOrCreate_standard standard m.acl username
              rcases aclSetuser_parsed standard read user with
                ⟨all, outcome⟩ | ⟨before, rule, e, breaks, outcome⟩
              · refine iff_of_true (fun ⟨e, failed⟩ => by simp [outcome] at failed) ?_
                intro parsed' read' before rule breaks
                obtain rfl := Except.ok.inj (read.symm.trans (parseRules_ok_iff.mpr read'))
                exact breaks.broken (all before rule breaks.listed)
              · refine iff_of_false (fun whole => ?_) (fun careful => ?_)
                · have absent := whole ⟨e, by rw [outcome]⟩
                  rw [outcome, Acl.aclGetuser, Assoc.get_insert, if_pos rfl] at absent
                  cases absent
                · exact careful parsed (parseRules_ok_iff.mp read) before rule breaks

/-- Changing a user is total and atomic just for careful rules. -/
theorem changes_whole_iff (globs : Globs) (standard : globs.Standard) (argon2 : Argon2) :
    (∀ (acl : Acl) (username : Bytes) (rules : List Bytes),
        SetsWhole globs acl username rules ↔ Careful globs acl username rules) ∧
      ∀ (m : AuthManager) (salt username password : Bytes) (permissions : List Bytes),
        CreatesWhole globs argon2 m salt username password permissions ↔
          CreatesCareful globs argon2 m salt username password permissions :=
  ⟨setsWhole_iff_careful standard, createsWhole_iff_careful standard⟩

end

/-- A `globset` where an open bracket is not a glob. -/
def bracketGlobs : Globs := { plainGlobs with isGlob := fun p => p ≠ bytesOf "[" }

theorem bracketGlobs_standard : bracketGlobs.Standard := ⟨rfl, rfl⟩

theorem changes_whole_iff_on :
    Careful bracketGlobs Acl.empty (bytesOf "anton") [bytesOf "on", bytesOf "~*"] := by
  refine ((changes_whole_iff bracketGlobs bracketGlobs_standard openArgon2).1 _ _ _).mp ⟨?_, ?_⟩
  · decide +kernel
  · intro e failed
    have done : (Acl.empty.aclSetuser bracketGlobs (bytesOf "anton")
        [bytesOf "on", bytesOf "~*"]).2 = .ok () := by decide +kernel
    exact absurd (done.symm.trans failed) (by simp)

/-- An empty rule makes the call panic, and a pattern that is no glob leaves an existing user
without its rules, and a new one behind. -/
theorem not_setsWhole_bracket :
    ¬ SetsWhole bracketGlobs Acl.empty (bytesOf "anton") [[]] ∧
      ¬ SetsWhole bracketGlobs ⟨[(bytesOf "anton", .blank (bytesOf "anton"))]⟩ (bytesOf "anton")
        [bytesOf "~["] ∧
      ¬ CreatesWhole bracketGlobs openArgon2 ⟨Acl.empty, none, []⟩ [] (bytesOf "anton") []
        [bytesOf "~["] := by
  refine ⟨?_, ?_, ?_⟩
  · intro whole
    exact whole.returns (by decide +kernel)
  · intro whole
    have restored := whole.restores (.invalidAclRule (bytesOf "[")) (by decide +kernel)
    exact absurd restored (by decide +kernel)
  · intro whole
    have restored := whole (.acl (.invalidAclRule (bytesOf "["))) (by decide +kernel)
    exact absurd restored (by decide +kernel)

end Zumic.Auth
