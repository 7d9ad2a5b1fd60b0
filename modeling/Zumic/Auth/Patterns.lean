/- Which keys and channels a rule list opens, and which ones `check_key` and `check_channel` let
through. -/

import Zumic.Auth.Permissions

namespace Zumic.Auth

open Lib Lib.ByteString

/-- A set matches what one of its globs matches. -/
def Globs.MatchesByOne (globs : Globs) : Prop :=
  ∀ (patterns : List Bytes) (text : Bytes),
    globs.isMatch patterns text = patterns.any fun p => globs.isMatch [p] text

/-- The four pattern lists of a user. -/
inductive PatternList where
  | key
  | denyKey
  | channel
  | denyChannel

namespace PatternList

/-- How a rule for the list starts. -/
def sign : PatternList → Bytes
  | key => [126]
  | denyKey => [45, 126]
  | channel => [38]
  | denyChannel => [45, 38]

def raw : PatternList → AclUser → List Bytes
  | key => AclUser.rawKeyPatterns
  | denyKey => AclUser.rawDenyKeyPatterns
  | channel => AclUser.rawChannelPatterns
  | denyChannel => AclUser.rawDenyChannelPatterns

def compiled : PatternList → AclUser → List Bytes
  | key => AclUser.keyPatterns
  | denyKey => AclUser.denyKeyPatterns
  | channel => AclUser.channelPatterns
  | denyChannel => AclUser.denyChannelPatterns

/-- The pattern of a rule for the list. -/
def patternOf (kind : PatternList) (rule : Bytes) : Option Bytes :=
  if kind.sign.isPrefixOf rule then some (rule.drop kind.sign.length) else none

def patterns (kind : PatternList) (rules : List Bytes) : List Bytes :=
  rules.filterMap kind.patternOf

end PatternList

section

variable (globs : Globs) (allow deny : PatternList) (rules : List Bytes) (text : Bytes)

def Denied : Prop := ∃ p ∈ deny.patterns rules, globs.isMatch [p] text = true

/-- What a rule list is meant to open. -/
def Opens : Prop :=
  lastOf isSwitch rules = some (bytesOf "on") ∧
    (∃ p ∈ allow.patterns rules, globs.isMatch [p] text = true) ∧
    ¬ Denied globs deny rules text

/-- A user that is switched on without any allow pattern is let through wherever no deny pattern
matches. -/
def Unfenced : Prop :=
  lastOf isSwitch rules = some (bytesOf "on") ∧ allow.patterns rules = [] ∧
    ¬ Denied globs deny rules text

end

section

variable {globs : Globs}

theorem rebuild_ok {raw : AclUser → List Bytes} {store : AclUser → List Bytes → AclUser}
    {u u' : AclUser} (done : rebuild globs raw store u = (u', .ok ())) : u' = store u (raw u) := by
  unfold rebuild rebuildGlobset at done
  by_cases builds : globs.builds (raw u) = true
  · simp only [builds, if_true, Prod.mk.injEq, and_true] at done
    exact done.symm
  · simp [builds] at done

theorem addPattern_ok {add : AclUser → Bytes → AclUser} {raw : AclUser → List Bytes}
    {store : AclUser → List Bytes → AclUser} {p : Bytes} {u u' : AclUser}
    (done : addPattern globs add (rebuild globs raw store) p u = (u', .ok ())) :
    u' = store (add u p) (raw (add u p)) := by
  unfold addPattern at done
  split at done
  · exact rebuild_ok done
  · cases done

theorem raw_applyRule (kind : PatternList) {text : Bytes} {rule : AclRule} {u u' : AclUser}
    (read : Reads text rule) (done : applyRule globs rule u = (u', .ok ())) :
    kind.raw u' = kind.raw u ++ (kind.patternOf text).toList := by
  cases read with
  | allowKeyPattern p =>
      simp only [applyRule, allowKeyPattern, rebuildKeys] at done
      rw [addPattern_ok done]
      cases kind <;> simp [PatternList.raw, PatternList.patternOf, PatternList.sign]
  | denyKeyPattern p =>
      simp only [applyRule, denyKeyPattern, rebuildDenyKeys] at done
      rw [addPattern_ok done]
      cases kind <;> simp [PatternList.raw, PatternList.patternOf, PatternList.sign]
  | allowChannelPattern p =>
      simp only [applyRule, allowChannelPattern, rebuildChannels] at done
      rw [addPattern_ok done]
      cases kind <;> simp [PatternList.raw, PatternList.patternOf, PatternList.sign]
  | denyChannelPattern p =>
      simp only [applyRule, denyChannelPattern, rebuildDenyChannels] at done
      rw [addPattern_ok done]
      cases kind <;> simp [PatternList.raw, PatternList.patternOf, PatternList.sign]
  | denyCommand known =>
      have head := head_of_known known
      cases done
      rename_i name idx
      cases name with
      | nil => cases kind <;> simp [PatternList.raw, PatternList.patternOf, PatternList.sign]
      | cons b name =>
          simp only [List.head?_cons, List.mem_cons, Option.some.injEq, List.not_mem_nil, or_false,
            not_or] at head
          cases kind <;>
            simp [PatternList.raw, PatternList.patternOf, PatternList.sign, Ne.symm head.2.1,
              Ne.symm head.2.2]
  | _ =>
      cases done
      cases kind <;>
        simp [PatternList.raw, PatternList.patternOf, PatternList.sign, on_eq, off_eq, nopass_eq,
          allowRule_eq, denyRule_eq]

theorem raw_applyRules (kind : PatternList) {rules : List Bytes} {parsed : List AclRule}
    (read : parseRules rules = .ok parsed) {u u' : AclUser}
    (done : applyRules globs parsed u = (u', .ok ())) :
    kind.raw u' = kind.raw u ++ kind.patterns rules := by
  induction rules generalizing parsed u with
  | nil =>
      cases read
      cases done
      simp [PatternList.patterns]
  | cons text rules ih =>
      obtain ⟨rule, rest, first, others, rfl⟩ := parseRules_cons read
      obtain ⟨mid, applied, done⟩ := andThen_ok done
      rw [ih others done, raw_applyRule kind (reads_of_fromStr first) applied, List.append_assoc]
      unfold PatternList.patterns
      cases found : kind.patternOf text with
      | none => simp [found]
      | some p => simp [found]

theorem raw_uncompiled (kind : PatternList) : Uncompiled kind.raw where
  keys _ _ := by cases kind <;> rfl
  denyKeys _ _ := by cases kind <;> rfl
  channels _ _ := by cases kind <;> rfl
  denyChannels _ _ := by cases kind <;> rfl

theorem raw_resetRules (kind : PatternList) (u : AclUser) :
    kind.raw (u.resetRules globs) = [] := by
  unfold AclUser.resetRules
  rw [view_rebuildAllDenyPatterns (raw_uncompiled kind),
    view_rebuildAllPatterns (raw_uncompiled kind)]
  cases kind <;> rfl

theorem compiled_of_rebuilt (kind : PatternList) {u u' : AclUser}
    (done : (rebuildAllPatterns globs).andThen (rebuildAllDenyPatterns globs) u = (u', .ok ())) :
    kind.compiled u' = kind.raw u := by
  obtain ⟨allowed, allow_done, deny_done⟩ := andThen_ok done
  obtain ⟨keyed, key_done, channel_done⟩ := andThen_ok allow_done
  obtain ⟨unkeyed, denyKey_done, denyChannel_done⟩ := andThen_ok deny_done
  rw [rebuild_ok denyChannel_done, rebuild_ok denyKey_done, rebuild_ok channel_done,
    rebuild_ok key_done]
  cases kind <;> rfl

theorem stored_of_accepted {acl acl' : Acl} {username : Bytes} {rules : List Bytes}
    (accepted : acl.aclSetuser globs username rules = (acl', .ok ())) :
    ∃ u, acl'.aclGetuser username = some u ∧
      (u.enabled = true ↔ lastOf isSwitch rules = some (bytesOf "on")) ∧
      ∀ kind : PatternList, kind.compiled u = kind.patterns rules := by
  obtain ⟨parsed, found, mid, set, read, applied, rebuilt, rfl⟩ := aclSetuser_accepted accepted
  refine ⟨set, ?_, ?_, ?_⟩
  · rw [Acl.aclGetuser, Assoc.get_insert, if_pos rfl]
  · have switched : set.enabled = mid.enabled := congrArg Prod.fst (grants_rebuilt rebuilt)
    rw [switched]
    exact enabled_iff read (grants_resetRules found) applied
  · intro kind
    rw [compiled_of_rebuilt kind rebuilt, raw_applyRules kind read applied, raw_resetRules,
      List.nil_append]

end

section

variable {globs : Globs}

theorem checkPatterns_iff (byOne : globs.MatchesByOne) (allow deny : PatternList)
    {rules : List Bytes} {u : AclUser}
    (switch : u.enabled = true ↔ lastOf isSwitch rules = some (bytesOf "on"))
    (filled : ∀ kind : PatternList, kind.compiled u = kind.patterns rules) (text : Bytes) :
    u.checkPatterns globs allow.compiled deny.compiled text = true ↔
      Opens globs allow deny rules text ∨ Unfenced globs allow deny rules text := by
  have denied : globs.isMatch (deny.compiled u) text = true ↔ Denied globs deny rules text := by
    rw [filled, byOne, List.any_eq_true]
    exact Iff.rfl
  have allowed : globs.isMatch (allow.compiled u) text = true ↔
      ∃ p ∈ allow.patterns rules, globs.isMatch [p] text = true := by
    rw [filled, byOne, List.any_eq_true]
  unfold AclUser.checkPatterns Opens Unfenced
  rw [← switch, ← denied, ← allowed]
  cases u.enabled with
  | false => simp
  | true =>
      by_cases bad : globs.isMatch (deny.compiled u) text = true
      · simp [bad]
      · rw [filled allow]
        cases allow.patterns rules with
        | nil => simp [bad]
        | cons p rest => simp [bad]

/-- Whatever the user was before, the check follows this list except for an unfenced user. -/
theorem checks_as_opened_iff (globs : Globs) (byOne : globs.MatchesByOne) (acl acl' : Acl)
    (username : Bytes) (rules : List Bytes)
    (accepted : acl.aclSetuser globs username rules = (acl', .ok ())) :
    ∃ u, acl'.aclGetuser username = some u ∧ ∀ text : Bytes,
      ((u.checkKey globs text = true ↔ Opens globs .key .denyKey rules text) ↔
        ¬ Unfenced globs .key .denyKey rules text) ∧
      ((u.checkChannel globs text = true ↔ Opens globs .channel .denyChannel rules text) ↔
        ¬ Unfenced globs .channel .denyChannel rules text) := by
  have apart : ∀ (allow deny : PatternList) (text : Bytes), Unfenced globs allow deny rules text →
      ¬ Opens globs allow deny rules text := by
    rintro allow deny text ⟨-, none_allowed, -⟩ ⟨-, ⟨p, member, -⟩, -⟩
    rw [none_allowed] at member
    exact List.not_mem_nil member
  obtain ⟨u, stored, switch, filled⟩ := stored_of_accepted accepted
  refine ⟨u, stored, fun text => ⟨?_, ?_⟩⟩
  · have checked : u.checkKey globs text = true ↔ _ :=
      checkPatterns_iff byOne .key .denyKey switch filled text
    rw [checked]
    have distinct := apart .key .denyKey text
    tauto
  · have checked : u.checkChannel globs text = true ↔ _ :=
      checkPatterns_iff byOne .channel .denyChannel switch filled text
    rw [checked]
    have distinct := apart .channel .denyChannel text
    tauto

end

/-- A `globset` where `*` is the only pattern that is more than a plain text. -/
def plainGlobs : Globs where
  isGlob _ := true
  builds _ := true
  isMatch patterns text := patterns.any fun p => p = bytesOf "*" || p = text

theorem plainGlobs_matchesByOne : plainGlobs.MatchesByOne := by
  intro patterns text
  simp [plainGlobs]

theorem checks_as_opened_wild :
    ∃ u, (Acl.empty.aclSetuser plainGlobs (bytesOf "anton")
        [bytesOf "on", bytesOf "~*"]).1.aclGetuser (bytesOf "anton") = some u ∧
      (u.checkKey plainGlobs (bytesOf "k") = true ↔
        Opens plainGlobs .key .denyKey [bytesOf "on", bytesOf "~*"] (bytesOf "k")) := by
  obtain ⟨u, stored, checked⟩ := checks_as_opened_iff plainGlobs plainGlobs_matchesByOne Acl.empty _
    (bytesOf "anton") [bytesOf "on", bytesOf "~*"] (by rfl)
  refine ⟨u, stored, (checked (bytesOf "k")).1.mpr ?_⟩
  rintro ⟨-, unfenced, -⟩
  exact absurd unfenced (by decide)

/-- After `on` alone, every key is let through. -/
theorem checks_against_rules :
    ¬ ∀ (globs : Globs) (acl acl' : Acl) (username : Bytes) (rules : List Bytes),
      globs.MatchesByOne → acl.aclSetuser globs username rules = (acl', .ok ()) →
        ∃ u, acl'.aclGetuser username = some u ∧ ∀ text : Bytes,
          (u.checkKey globs text = true ↔ Opens globs .key .denyKey rules text) ∧
          (u.checkChannel globs text = true ↔
            Opens globs .channel .denyChannel rules text) := by
  intro always
  obtain ⟨u, stored, checked⟩ := always plainGlobs Acl.empty
    (Acl.empty.aclSetuser plainGlobs (bytesOf "anton") [bytesOf "on"]).1 (bytesOf "anton")
    [bytesOf "on"] plainGlobs_matchesByOne (by rfl)
  have let_through : ((Acl.empty.aclSetuser plainGlobs (bytesOf "anton")
      [bytesOf "on"]).1.aclGetuser (bytesOf "anton")).all
        (fun v => v.checkKey plainGlobs (bytesOf "k")) = true := by
    decide +kernel
  rw [stored] at let_through
  obtain ⟨-, ⟨p, member, -⟩, -⟩ := (checked (bytesOf "k")).1.mp let_through
  have bare : PatternList.key.patterns [bytesOf "on"] = [] := by decide
  rw [bare] at member
  exact List.not_mem_nil member

end Zumic.Auth
