/- Which commands a rule list permits, and which ones `authorize_command` lets through. -/

import Zumic.Auth.Acl

namespace Zumic.Auth

open Lib Lib.ByteString Lib.Utf8

/-- The last entry of a list that satisfies `p`. -/
def lastOf (p : Bytes → Bool) (rules : List Bytes) : Option Bytes := (rules.filter p).getLast?

def isSwitch (rule : Bytes) : Bool := rule = bytesOf "on" || rule = bytesOf "off"

/-- A rule `+cmd` or `-cmd`, by its sign, that names the command. -/
def namesCommand (sign : UInt8) (command : Bytes) : Bytes → Bool
  | [] => false
  | s :: name =>
      s = sign && name.head? ∉ [some 64, some 126, some 38] &&
        name.map asciiLower = command.map asciiLower

def allowRule (category : Bytes) : Bytes := bytesOf "+@" ++ category

def denyRule (category : Bytes) : Bytes := bytesOf "-@" ++ category

def allowAll : Bytes := bytesOf "+@all"

/-- The rules `+@category` and `-@category`. -/
def isOwnRule (category rule : Bytes) : Bool :=
  rule = allowRule category || rule = denyRule category

/-- The rules `+@category`, `-@category` and `+@all`. -/
def isCategoryRule (category rule : Bytes) : Bool := isOwnRule category rule || rule = allowAll

def categories : List Bytes := [bytesOf "read", bytesOf "write", bytesOf "admin"]

/-- The user is switched on and the command is not taken away by name. -/
def Open (rules : List Bytes) (command : Bytes) : Prop :=
  lastOf isSwitch rules = some (bytesOf "on") ∧
    ∀ rule ∈ rules, namesCommand 45 command rule = false

def Named (rules : List Bytes) (command : Bytes) : Prop :=
  ∃ rule ∈ rules, namesCommand 43 command rule = true

/-- What a rule list is meant to permit. -/
def Permits (rules : List Bytes) (category command : Bytes) : Prop :=
  Open rules command ∧
    ((category ∈ categories ∧
        (lastOf (isCategoryRule category) rules).any fun rule => rule.head? = some 43) ∨
      Named rules command)

/-- `+@all` adds no category and every mask contains the empty one of an unknown category. Both
show where the command is neither allowed nor denied by name. -/
def Misjudged (rules : List Bytes) (category command : Bytes) : Prop :=
  Open rules command ∧ ¬ Named rules command ∧
    (category ∉ categories ∨
      (lastOf (isCategoryRule category) rules = some allowAll ∧
        lastOf (isOwnRule category) rules ≠ some (allowRule category)))

theorem lastOf_cons (p : Bytes → Bool) (rule : Bytes) (rules : List Bytes) :
    lastOf p (rule :: rules) =
      if p rule then some ((lastOf p rules).getD rule) else lastOf p rules := by
  unfold lastOf
  by_cases own : p rule
  · rw [List.filter_cons_of_pos own, List.getLast?_cons, if_pos own]
  · rw [List.filter_cons_of_neg own, if_neg own]

theorem lastOf_sat {p : Bytes → Bool} {rules : List Bytes} {rule : Bytes}
    (last : lastOf p rules = some rule) : p rule = true :=
  (List.mem_filter.mp (List.mem_of_getLast? last)).2

theorem lastOf_any (p : Bytes → Bool) (rules : List Bytes) :
    (lastOf p rules).isSome = rules.any p := by
  induction rules with
  | nil => rfl
  | cons rule rules ih =>
      rw [lastOf_cons, List.any_cons, ← ih]
      cases p rule <;> simp

theorem lastOf_narrow {p q : Bytes → Bool} (narrower : ∀ rule, q rule = true → p rule = true)
    {rules : List Bytes} {rule : Bytes} (last : lastOf p rules = some rule)
    (sat : q rule = true) : lastOf q rules = some rule := by
  induction rules with
  | nil => cases last
  | cons first rules ih =>
      rw [lastOf_cons] at last ⊢
      cases more : lastOf p rules with
      | some later =>
          have final : later = rule := by
            cases own : p first <;> simpa [own, more] using last
          rw [ih (by rw [more, final])]
          cases q first <;> simp
      | none =>
          have quiet : lastOf q rules = none := by
            rw [← Option.not_isSome_iff_eq_none, lastOf_any]
            have quiet_p : rules.any p = false := by rw [← lastOf_any, more]; rfl
            rw [List.any_eq_true]
            rintro ⟨r, member, holds⟩
            rw [List.any_eq_false] at quiet_p
            exact quiet_p r member (narrower r holds)
          cases own : p first with
          | false => simp [own, more] at last
          | true =>
              have here : first = rule := by simpa [own, more] using last
              simp [here, sat, quiet]

theorem lastOf_widen {p q : Bytes → Bool} (narrower : ∀ rule, q rule = true → p rule = true)
    {rules : List Bytes} {rule : Bytes} (last : lastOf q rules = some rule) :
    lastOf p rules = some rule ∨ ∃ later, lastOf p rules = some later ∧ q later = false := by
  have some_p : (lastOf p rules).isSome = true := by
    rw [lastOf_any, List.any_eq_true]
    have member := List.mem_filter.mp (List.mem_of_getLast? last)
    exact ⟨rule, member.1, narrower rule member.2⟩
  obtain ⟨later, wide⟩ := Option.isSome_iff_exists.mp some_p
  cases sat : q later with
  | false => exact .inr ⟨later, wide, sat⟩
  | true =>
      have same := (lastOf_narrow narrower wide sat).symm.trans last
      rw [wide, Option.some.inj same]
      exact .inl rfl

/-- What the text of each rule looks like. -/
inductive Reads : Bytes → AclRule → Prop
  | on : Reads (bytesOf "on") .on
  | off : Reads (bytesOf "off") .off
  | noPass : Reads (bytesOf "nopass") .noPass
  | passwordHash (rest : Bytes) : Reads (62 :: rest) (.passwordHash rest)
  | allowCategory (cat : Bytes) : Reads (allowRule cat) (.allowCategory (parseCategory cat))
  | denyCategory (cat : Bytes) : Reads (denyRule cat) (.denyCategory (parseCategory cat))
  | allowCommand {name : Bytes} {idx : Nat} (known : lookupCmdIdx name = some idx) :
      Reads (43 :: name) (.allowCommand idx)
  | denyCommand {name : Bytes} {idx : Nat} (known : lookupCmdIdx name = some idx) :
      Reads (45 :: name) (.denyCommand idx)
  | allowKeyPattern (p : Bytes) : Reads (126 :: p) (.allowKeyPattern p)
  | denyKeyPattern (p : Bytes) : Reads (45 :: 126 :: p) (.denyKeyPattern p)
  | allowChannelPattern (p : Bytes) : Reads (38 :: p) (.allowChannelPattern p)
  | denyChannelPattern (p : Bytes) : Reads (45 :: 38 :: p) (.denyChannelPattern p)

theorem splitAtOne_eq {s : Bytes} {head : UInt8} {rest : Bytes}
    (cut : splitAtOne s = some (head, rest)) : s = head :: rest := by
  unfold splitAtOne at cut
  split at cut
  · cases cut
  · cases cut; rfl
  · split at cut
    · cases cut
    · cases cut; rfl

theorem parseCommandRule_ok {build : Nat → AclRule} {rest : Bytes} {rule : AclRule}
    (parsed : parseCommandRule build rest = .ok rule) :
    ∃ idx, lookupCmdIdx rest = some idx ∧ rule = build idx := by
  unfold parseCommandRule at parsed
  split at parsed
  · rename_i idx known
    cases parsed
    exact ⟨idx, known, rfl⟩
  · cases parsed

theorem reads_of_fromStr {s : Bytes} {rule : AclRule} (parsed : AclRule.fromStr s = .ok rule) :
    Reads s rule := by
  unfold AclRule.fromStr at parsed
  split at parsed
  · rename_i h; cases parsed; rw [h]; exact .on
  split at parsed
  · rename_i h; cases parsed; rw [h]; exact .off
  split at parsed
  · rename_i h; cases parsed; rw [h]; exact .noPass
  split at parsed
  · cases parsed
  · rename_i cut; cases parsed; rw [splitAtOne_eq cut]; exact .passwordHash _
  · rename_i cut; cases parsed; rw [splitAtOne_eq cut]; exact .allowCategory _
  · rename_i cut
    obtain ⟨idx, known, rfl⟩ := parseCommandRule_ok parsed
    rw [splitAtOne_eq cut]
    exact .allowCommand known
  · rename_i cut; cases parsed; rw [splitAtOne_eq cut]; exact .denyCategory _
  · rename_i cut; cases parsed; rw [splitAtOne_eq cut]; exact .denyKeyPattern _
  · rename_i cut; cases parsed; rw [splitAtOne_eq cut]; exact .denyChannelPattern _
  · rename_i cut
    obtain ⟨idx, known, rfl⟩ := parseCommandRule_ok parsed
    rw [splitAtOne_eq cut]
    exact .denyCommand known
  · rename_i cut; cases parsed; rw [splitAtOne_eq cut]; exact .allowKeyPattern _
  · rename_i cut; cases parsed; rw [splitAtOne_eq cut]; exact .allowChannelPattern _
  · cases parsed

section

variable {globs : Globs}

theorem andThen_ok {first second : UserM} {u u' : AclUser}
    (done : first.andThen second u = (u', .ok ())) :
    ∃ mid, first u = (mid, .ok ()) ∧ second mid = (u', .ok ()) := by
  unfold UserM.andThen at done
  split at done
  · rename_i mid first_ok
    exact ⟨mid, first_ok, done⟩
  · cases done

theorem parseRules_cons {text : Bytes} {rules : List Bytes} {parsed : List AclRule}
    (read : parseRules (text :: rules) = .ok parsed) :
    ∃ rule rest, AclRule.fromStr text = .ok rule ∧ parseRules rules = .ok rest ∧
      parsed = rule :: rest := by
  unfold parseRules at read
  split at read
  · cases read
  rename_i rule first
  split at read
  · cases read
  rename_i rest others
  exact ⟨rule, rest, first, others, (Except.ok.inj read).symm⟩

theorem aclSetuser_accepted {acl acl' : Acl} {username : Bytes} {rules : List Bytes}
    (accepted : acl.aclSetuser globs username rules = (acl', .ok ())) :
    ∃ (parsed : List AclRule) (found mid set : AclUser), parseRules rules = .ok parsed ∧
      applyRules globs parsed (found.resetRules globs) = (mid, .ok ()) ∧
      (rebuildAllPatterns globs).andThen (rebuildAllDenyPatterns globs) mid = (set, .ok ()) ∧
      acl' = ⟨Assoc.insert acl.users username set⟩ := by
  unfold Acl.aclSetuser at accepted
  split at accepted
  · cases accepted
  rename_i parsed read
  split at accepted
  · cases accepted
  rename_i found _
  simp only at accepted
  split at accepted
  · rename_i set rebuilt
    cases accepted
    obtain ⟨mid, applied, rest⟩ := andThen_ok rebuilt
    exact ⟨parsed, found, mid, set, read, applied, rest, rfl⟩
  · cases accepted

/-- The part of a user that decides about commands. -/
def AclUser.grants (u : AclUser) : Bool × CmdCategory × BitVec 128 × BitVec 128 :=
  (u.enabled, u.allowedCategories, u.allowedCommands, u.deniedCommands)

/-- What a rule does to that part. -/
def AclRule.grant (rule : AclRule) (g : Bool × CmdCategory × BitVec 128 × BitVec 128) :
    Bool × CmdCategory × BitVec 128 × BitVec 128 :=
  match rule, g with
  | .on, (_, c, a, d) => (true, c, a, d)
  | .off, (_, c, a, d) => (false, c, a, d)
  | .allowCategory m, (e, c, a, d) => (e, c ||| m, a, d)
  | .denyCategory m, (e, c, a, d) => (e, CmdCategory.remove c m, a, d)
  | .allowCommand i, (e, c, a, d) => (e, c, a ||| commandBit i, d)
  | .denyCommand i, (e, c, a, d) => (e, c, a, d ||| commandBit i)
  | _, g => g

/-- A view of a user that no rebuild of a pattern set changes. -/
structure Uncompiled {β : Type} (view : AclUser → β) : Prop where
  keys : ∀ u set, view { u with keyPatterns := set } = view u
  denyKeys : ∀ u set, view { u with denyKeyPatterns := set } = view u
  channels : ∀ u set, view { u with channelPatterns := set } = view u
  denyChannels : ∀ u set, view { u with denyChannelPatterns := set } = view u

theorem view_rebuild {β : Type} {view : AclUser → β} {raw : AclUser → List Bytes}
    {store : AclUser → List Bytes → AclUser} (kept : ∀ u set, view (store u set) = view u)
    (u : AclUser) : view (rebuild globs raw store u).1 = view u := by
  unfold rebuild
  cases rebuildGlobset globs (raw u) with
  | ok set => exact kept u set
  | error e => rfl

theorem view_andThen_first {β : Type} {view : AclUser → β} {first second : UserM}
    (keeps : ∀ u, view (second u).1 = view u) (u : AclUser) :
    view (first.andThen second u).1 = view (first u).1 := by
  unfold UserM.andThen
  split
  · rename_i mid ran
    rw [ran, keeps mid]
  · rename_i mid e ran
    rw [ran]

theorem view_andThen {β : Type} {view : AclUser → β} {first second : UserM}
    (keeps₁ : ∀ u, view (first u).1 = view u) (keeps₂ : ∀ u, view (second u).1 = view u)
    (u : AclUser) : view (first.andThen second u).1 = view u := by
  rw [view_andThen_first keeps₂, keeps₁]

theorem view_rebuildAllPatterns {β : Type} {view : AclUser → β} (kept : Uncompiled view)
    (u : AclUser) : view (rebuildAllPatterns globs u).1 = view u :=
  view_andThen (view_rebuild kept.keys) (view_rebuild kept.channels) u

theorem view_rebuildAllDenyPatterns {β : Type} {view : AclUser → β} (kept : Uncompiled view)
    (u : AclUser) : view (rebuildAllDenyPatterns globs u).1 = view u :=
  view_andThen (view_rebuild kept.denyKeys) (view_rebuild kept.denyChannels) u

theorem view_rebuildBoth {β : Type} {view : AclUser → β} (kept : Uncompiled view)
    (u : AclUser) :
    view ((rebuildAllPatterns globs).andThen (rebuildAllDenyPatterns globs) u).1 = view u :=
  view_andThen (view_rebuildAllPatterns kept) (view_rebuildAllDenyPatterns kept) u

theorem view_addPattern {β : Type} {view : AclUser → β} {add : AclUser → Bytes → AclUser}
    {compile : UserM} (added : ∀ u p, view (add u p) = view u)
    (keeps : ∀ u, view (compile u).1 = view u) (p : Bytes) (u : AclUser) :
    view (addPattern globs add compile p u).1 = view u := by
  unfold addPattern
  split
  · rw [keeps, added]
  · rfl

/-- A view that no pattern list shows in. -/
structure Unpatterned {β : Type} (view : AclUser → β) : Prop extends Uncompiled view where
  rawKeys : ∀ u raw, view { u with rawKeyPatterns := raw } = view u
  rawDenyKeys : ∀ u raw, view { u with rawDenyKeyPatterns := raw } = view u
  rawChannels : ∀ u raw, view { u with rawChannelPatterns := raw } = view u
  rawDenyChannels : ∀ u raw, view { u with rawDenyChannelPatterns := raw } = view u

def AclRule.isPattern : AclRule → Bool
  | .allowKeyPattern _ | .denyKeyPattern _ | .allowChannelPattern _ | .denyChannelPattern _ => true
  | _ => false

theorem view_patternRule {β : Type} {view : AclUser → β} (kept : Unpatterned view)
    {rule : AclRule} (pattern : rule.isPattern = true) (u : AclUser) :
    view (applyRule globs rule u).1 = view u := by
  cases rule with
  | allowKeyPattern p =>
      refine view_addPattern ?_ (view_rebuild kept.keys) p u
      intro u p
      exact kept.rawKeys u _
  | denyKeyPattern p =>
      refine view_addPattern ?_ (view_rebuild kept.denyKeys) p u
      intro u p
      exact kept.rawDenyKeys u _
  | allowChannelPattern p =>
      refine view_addPattern ?_ (view_rebuild kept.channels) p u
      intro u p
      exact kept.rawChannels u _
  | denyChannelPattern p =>
      refine view_addPattern ?_ (view_rebuild kept.denyChannels) p u
      intro u p
      exact kept.rawDenyChannels u _
  | _ => cases pattern

theorem grants_unpatterned : Unpatterned AclUser.grants where
  keys _ _ := rfl
  denyKeys _ _ := rfl
  channels _ _ := rfl
  denyChannels _ _ := rfl
  rawKeys _ _ := rfl
  rawDenyKeys _ _ := rfl
  rawChannels _ _ := rfl
  rawDenyChannels _ _ := rfl

theorem grants_applyRule (rule : AclRule) (u : AclUser) :
    (applyRule globs rule u).1.grants = rule.grant u.grants := by
  cases rule with
  | allowKeyPattern p => exact view_patternRule grants_unpatterned rfl u
  | denyKeyPattern p => exact view_patternRule grants_unpatterned rfl u
  | allowChannelPattern p => exact view_patternRule grants_unpatterned rfl u
  | denyChannelPattern p => exact view_patternRule grants_unpatterned rfl u
  | _ => rfl

theorem grants_rebuilt {u u' : AclUser}
    (done : (rebuildAllPatterns globs).andThen (rebuildAllDenyPatterns globs) u = (u', .ok ())) :
    u'.grants = u.grants := by
  have kept := @view_rebuildBoth globs _ _ grants_unpatterned.toUncompiled u
  rwa [done] at kept

theorem grants_resetRules (u : AclUser) : (u.resetRules globs).grants = (false, 0, 0, 0) := by
  unfold AclUser.resetRules
  rw [view_rebuildAllDenyPatterns grants_unpatterned.toUncompiled,
    view_rebuildAllPatterns grants_unpatterned.toUncompiled]
  rfl

/-- A part of the grants that only the rules with `p` set, each to `w`, ends as the last of them
sets it. -/
theorem granted_last {β : Type} (view : Bool × CmdCategory × BitVec 128 × BitVec 128 → β)
    (p : Bytes → Bool) (w : Bytes → β)
    (writes : ∀ text rule g, Reads text rule →
      view (rule.grant g) = if p text then w text else view g)
    {rules : List Bytes} {parsed : List AclRule} (read : parseRules rules = .ok parsed)
    {u u' : AclUser} (done : applyRules globs parsed u = (u', .ok ())) :
    view u'.grants = (lastOf p rules).elim (view u.grants) w := by
  induction rules generalizing parsed u with
  | nil =>
      cases read
      cases done
      rfl
  | cons text rules ih =>
      obtain ⟨rule, rest, first, others, rfl⟩ := parseRules_cons read
      obtain ⟨mid, applied, done⟩ := andThen_ok done
      have one : view mid.grants = if p text then w text else view u.grants := by
        have effect : (applyRule globs rule u).1.grants = _ := grants_applyRule rule u
        rw [applied] at effect
        rw [← writes text rule u.grants (reads_of_fromStr first), ← effect]
      rw [ih others done, lastOf_cons, one]
      cases own : p text with
      | false => rfl
      | true => cases lastOf p rules <;> rfl

theorem allowRule_eq (category : Bytes) : allowRule category = 43 :: 64 :: category := rfl

theorem denyRule_eq (category : Bytes) : denyRule category = 45 :: 64 :: category := rfl

theorem on_eq : bytesOf "on" = [111, 110] := rfl

theorem off_eq : bytesOf "off" = [111, 102, 102] := rfl

theorem nopass_eq : bytesOf "nopass" = [110, 111, 112, 97, 115, 115] := rfl

theorem enabled_writes (text : Bytes) (rule : AclRule)
    (g : Bool × CmdCategory × BitVec 128 × BitVec 128) (read : Reads text rule) :
    (rule.grant g).1 = if isSwitch text then decide (text = bytesOf "on") else g.1 := by
  cases read <;> simp [AclRule.grant, isSwitch, allowRule_eq, denyRule_eq, on_eq, off_eq, nopass_eq]

theorem category_bit {category : Bytes} (known : category ∈ categories) :
    ∃ k < 32, parseCategory category = BitVec.twoPow 32 k ∧
      ∀ cat, (parseCategory cat).getLsbD k = decide (cat = category) := by
  have named : ∀ cat, parseCategory cat =
      if cat = bytesOf "read" then 1#32 else if cat = bytesOf "write" then 2#32
      else if cat = bytesOf "admin" then 4#32 else 0#32 := fun _ => rfl
  have read_write : bytesOf "read" ≠ bytesOf "write" := by decide
  have read_admin : bytesOf "read" ≠ bytesOf "admin" := by decide
  have write_admin : bytesOf "write" ≠ bytesOf "admin" := by decide
  simp only [categories, List.mem_cons, List.not_mem_nil, or_false] at known
  rcases known with rfl | rfl | rfl
  · refine ⟨0, by omega, rfl, fun cat => ?_⟩
    rw [named]
    split_ifs with r w a <;> simp [*, read_write.symm, read_admin.symm]
  · refine ⟨1, by omega, rfl, fun cat => ?_⟩
    rw [named]
    split_ifs with r w a <;> simp [*, write_admin.symm]
  · refine ⟨2, by omega, rfl, fun cat => ?_⟩
    rw [named]
    split_ifs with r w a <;> simp [*]

theorem contains_twoPow (mask : CmdCategory) {k : Nat} (inside : k < 32) :
    CmdCategory.contains mask (BitVec.twoPow 32 k) = mask.getLsbD k := by
  have nonzero : BitVec.twoPow 32 k ≠ 0#32 := by
    intro zero
    have bit := congrArg (fun m => m.getLsbD k) zero
    simp [inside] at bit
  unfold CmdCategory.contains
  rw [BitVec.and_twoPow]
  cases mask.getLsbD k <;> simp [nonzero.symm]

theorem lookupCmdIdx_lt {cmd : Bytes} {idx : Nat} (known : lookupCmdIdx cmd = some idx) :
    idx < 128 := by
  have member := Assoc.mem_of_get known
  simp only [commandIndex, List.mem_cons, Prod.mk.injEq, List.not_mem_nil, or_false] at member
  omega

theorem lookupCmdIdx_eq {cmd name : Bytes} {idx : Nat} (known : lookupCmdIdx cmd = some idx) :
    lookupCmdIdx name = some idx ↔ name.map asciiLower = cmd.map asciiLower := by
  constructor
  · intro found
    have one := Assoc.mem_of_get known
    have two := Assoc.mem_of_get found
    simp only [commandIndex, List.mem_cons, Prod.mk.injEq, List.not_mem_nil, or_false] at one two
    rcases one with one | one | one | one <;> rcases two with two | two | two | two <;>
      first
        | omega
        | rw [one.1, two.1]
  · intro same
    rw [← known, lookupCmdIdx, lookupCmdIdx, same]

theorem head_of_known {name : Bytes} {idx : Nat} (known : lookupCmdIdx name = some idx) :
    name.head? ∉ [some 64, some 126, some 38] := by
  have member := Assoc.mem_of_get known
  simp only [commandIndex, List.mem_cons, Prod.mk.injEq, List.not_mem_nil, or_false] at member
  cases name with
  | nil => simp
  | cons b name =>
      have letter : asciiLower b ∈ [103, 115, 100, 102] := by
        rcases member with one | one | one | one <;>
          · have first := congrArg List.head? one.1
            rw [List.map_cons, List.head?_cons] at first
            rw [Option.some.inj first]
            decide
      intro marked
      simp only [List.head?_cons, List.mem_cons, Option.some.injEq, List.not_mem_nil, or_false]
        at marked
      rcases marked with rfl | rfl | rfl <;> exact absurd letter (by decide)

theorem isOwnRule_command {name : Bytes} {idx : Nat} (category : Bytes) {sign : UInt8}
    (known : lookupCmdIdx name = some idx) : isOwnRule category (sign :: name) = false := by
  have plain := head_of_known known
  cases name with
  | nil => simp [isOwnRule, allowRule_eq, denyRule_eq]
  | cons b name =>
      have other : b ≠ 64 := by
        intro same
        exact plain (by simp [same])
      simp [isOwnRule, allowRule_eq, denyRule_eq, other]

theorem getLsbD_remove (mask other : CmdCategory) {k : Nat} (inside : k < 32) :
    (CmdCategory.remove mask other).getLsbD k = (mask.getLsbD k && !other.getLsbD k) := by
  rw [CmdCategory.remove, BitVec.getLsbD_and, BitVec.getLsbD_not]
  simp [inside]

theorem category_writes {category : Bytes} {k : Nat} (inside : k < 32)
    (bit : ∀ cat, (parseCategory cat).getLsbD k = decide (cat = category)) (text : Bytes)
    (rule : AclRule) (g : Bool × CmdCategory × BitVec 128 × BitVec 128)
    (read : Reads text rule) :
    (rule.grant g).2.1.getLsbD k =
      if isOwnRule category text then decide (text = allowRule category) else g.2.1.getLsbD k := by
  cases read with
  | allowCategory cat =>
      by_cases same : cat = category
      · simp [AclRule.grant, isOwnRule, bit, same]
      · simp [AclRule.grant, isOwnRule, allowRule_eq, denyRule_eq, bit, same]
  | denyCategory cat =>
      rw [AclRule.grant, getLsbD_remove _ _ inside, bit]
      by_cases same : cat = category
      · simp [isOwnRule, allowRule_eq, denyRule_eq, same]
      · simp [isOwnRule, allowRule_eq, denyRule_eq, same]
  | allowCommand known => simp [AclRule.grant, isOwnRule_command _ known]
  | denyCommand known => simp [AclRule.grant, isOwnRule_command _ known]
  | _ => simp [AclRule.grant, isOwnRule, allowRule_eq, denyRule_eq, on_eq, off_eq, nopass_eq]

theorem commandBit_getLsbD {i idx : Nat} (inside : idx < 128) :
    (commandBit i).getLsbD idx = decide (i = idx) := by
  have power : commandBit i = BitVec.twoPow 128 i := rfl
  rw [power, BitVec.getLsbD_twoPow]
  by_cases same : i = idx
  · simp [same, inside]
  · simp [same]

theorem and_commandBit (mask : BitVec 128) {idx : Nat} (inside : idx < 128) :
    (mask &&& commandBit idx ≠ 0) ↔ mask.getLsbD idx = true := by
  have power : commandBit idx = BitVec.twoPow 128 idx := rfl
  have nonzero : BitVec.twoPow 128 idx ≠ 0#128 := by
    intro zero
    have bit := congrArg (fun m => m.getLsbD idx) zero
    simp [inside] at bit
  rw [power, BitVec.and_twoPow]
  cases mask.getLsbD idx <;> simp [nonzero]

theorem getLsbD_or_commandBit (mask : BitVec 128) {command name : Bytes} {idx i : Nat}
    (known : lookupCmdIdx command = some idx) (found : lookupCmdIdx name = some i) :
    (mask ||| commandBit i).getLsbD idx =
      if name.map asciiLower = command.map asciiLower then true else mask.getLsbD idx := by
  rw [BitVec.getLsbD_or, commandBit_getLsbD (lookupCmdIdx_lt known)]
  by_cases same : name.map asciiLower = command.map asciiLower
  · have index := ((lookupCmdIdx_eq known).mpr same).symm.trans found
    simp [same, (Option.some.inj index).symm]
  · have index : i ≠ idx := by
      rintro rfl
      exact same ((lookupCmdIdx_eq known).mp found)
    simp [same, index]

theorem denied_writes {command : Bytes} {idx : Nat} (known : lookupCmdIdx command = some idx)
    (text : Bytes) (rule : AclRule) (g : Bool × CmdCategory × BitVec 128 × BitVec 128)
    (read : Reads text rule) :
    (rule.grant g).2.2.2.getLsbD idx =
      if namesCommand 45 command text then true else g.2.2.2.getLsbD idx := by
  cases read with
  | denyCommand found =>
      rw [AclRule.grant, getLsbD_or_commandBit _ known found]
      simp [namesCommand, head_of_known found]
  | _ =>
      simp [AclRule.grant, namesCommand, allowRule_eq, denyRule_eq, on_eq, off_eq, nopass_eq]

theorem allowed_writes {command : Bytes} {idx : Nat} (known : lookupCmdIdx command = some idx)
    (text : Bytes) (rule : AclRule) (g : Bool × CmdCategory × BitVec 128 × BitVec 128)
    (read : Reads text rule) :
    (rule.grant g).2.2.1.getLsbD idx =
      if namesCommand 43 command text then true else g.2.2.1.getLsbD idx := by
  cases read with
  | allowCommand found =>
      rw [AclRule.grant, getLsbD_or_commandBit _ known found]
      simp [namesCommand, head_of_known found]
  | _ =>
      simp [AclRule.grant, namesCommand, allowRule_eq, denyRule_eq, on_eq, off_eq, nopass_eq]

theorem fromStr_of_mem {rules : List Bytes} {parsed : List AclRule}
    (read : parseRules rules = .ok parsed) {text : Bytes} (member : text ∈ rules) :
    ∃ rule, Reads text rule := by
  induction rules generalizing parsed with
  | nil => cases member
  | cons first rules ih =>
      obtain ⟨rule, rest, one, others, -⟩ := parseRules_cons read
      rcases List.mem_cons.mp member with rfl | later
      · exact ⟨rule, reads_of_fromStr one⟩
      · exact ih others later

theorem not_named_of_unknown {rules : List Bytes} {parsed : List AclRule}
    (read : parseRules rules = .ok parsed) {command : Bytes} (unknown : lookupCmdIdx command = none)
    {sign : UInt8} (signs : sign = 43 ∨ sign = 45) :
    ∀ rule ∈ rules, namesCommand sign command rule = false := by
  intro text member
  obtain ⟨rule, shape⟩ := fromStr_of_mem read member
  have other : ∀ {name : Bytes} {idx : Nat}, lookupCmdIdx name = some idx →
      name.map asciiLower ≠ command.map asciiLower := by
    intro name idx known same
    rw [lookupCmdIdx, same] at known
    exact absurd (unknown.symm.trans known) (by simp)
  cases shape with
  | allowCommand known => simp [namesCommand, other known]
  | denyCommand known => simp [namesCommand, other known]
  | _ =>
      rcases signs with rfl | rfl <;>
        simp [namesCommand, allowRule_eq, denyRule_eq, on_eq, off_eq, nopass_eq]

theorem parseCategory_unknown {category : Bytes} (unknown : category ∉ categories) :
    parseCategory category = 0 := by
  simp only [categories, List.mem_cons, List.not_mem_nil, or_false, not_or] at unknown
  simp [parseCategory, unknown]

variable {rules : List Bytes} {parsed : List AclRule} {u u' : AclUser}

theorem elim_eq_true_iff {last : Option Bytes} {text : Bytes} :
    last.elim false (fun rule => decide (rule = text)) = true ↔ last = some text := by
  cases last <;> simp

theorem elim_true_iff {p : Bytes → Bool} :
    (lastOf p rules).elim false (fun _ => true) = true ↔ ∃ rule ∈ rules, p rule = true := by
  rw [← List.any_eq_true, ← lastOf_any]
  cases lastOf p rules <;> simp

theorem enabled_iff (read : parseRules rules = .ok parsed) (blank : u.grants = (false, 0, 0, 0))
    (done : applyRules globs parsed u = (u', .ok ())) :
    u'.enabled = true ↔ lastOf isSwitch rules = some (bytesOf "on") := by
  have final : u'.grants.1 = _ := granted_last Prod.fst isSwitch _ enabled_writes read done
  rw [blank] at final
  rw [show u'.enabled = u'.grants.1 from rfl, final]
  exact elim_eq_true_iff

theorem contains_iff (read : parseRules rules = .ok parsed) (blank : u.grants = (false, 0, 0, 0))
    (done : applyRules globs parsed u = (u', .ok ())) (category : Bytes) :
    CmdCategory.contains u'.allowedCategories (parseCategory category) = true ↔
      category ∉ categories ∨
        lastOf (isOwnRule category) rules = some (allowRule category) := by
  by_cases known : category ∈ categories
  · obtain ⟨k, inside, power, bit⟩ := category_bit known
    have final : u'.grants.2.1.getLsbD k = _ :=
      granted_last (fun g => g.2.1.getLsbD k) (isOwnRule category) _ (category_writes inside bit)
        read done
    rw [blank] at final
    rw [power, contains_twoPow _ inside, show u'.allowedCategories = u'.grants.2.1 from rfl, final]
    simp only [BitVec.ofNat_eq_ofNat, BitVec.getLsbD_zero]
    rw [elim_eq_true_iff]
    simp [known]
  · rw [parseCategory_unknown known]
    simp [CmdCategory.contains, known]

theorem denied_iff (read : parseRules rules = .ok parsed) (blank : u.grants = (false, 0, 0, 0))
    (done : applyRules globs parsed u = (u', .ok ())) {command : Bytes} {idx : Nat}
    (known : lookupCmdIdx command = some idx) :
    u'.deniedCommands &&& commandBit idx ≠ 0 ↔
      ∃ rule ∈ rules, namesCommand 45 command rule = true := by
  have final : u'.grants.2.2.2.getLsbD idx = _ :=
    granted_last (fun g => g.2.2.2.getLsbD idx) (namesCommand 45 command) (fun _ => true)
      (denied_writes known) read done
  rw [blank] at final
  rw [and_commandBit _ (lookupCmdIdx_lt known), show u'.deniedCommands = u'.grants.2.2.2 from rfl,
    final]
  simp only [BitVec.ofNat_eq_ofNat, BitVec.getLsbD_zero]
  exact elim_true_iff

theorem allowed_iff (read : parseRules rules = .ok parsed) (blank : u.grants = (false, 0, 0, 0))
    (done : applyRules globs parsed u = (u', .ok ())) {command : Bytes} {idx : Nat}
    (known : lookupCmdIdx command = some idx) :
    u'.allowedCommands &&& commandBit idx ≠ 0 ↔ Named rules command := by
  have final : u'.grants.2.2.1.getLsbD idx = _ :=
    granted_last (fun g => g.2.2.1.getLsbD idx) (namesCommand 43 command) (fun _ => true)
      (allowed_writes known) read done
  rw [blank] at final
  rw [and_commandBit _ (lookupCmdIdx_lt known), show u'.allowedCommands = u'.grants.2.2.1 from rfl,
    final]
  simp only [BitVec.ofNat_eq_ofNat, BitVec.getLsbD_zero]
  exact elim_true_iff

theorem checkIdx_iff (read : parseRules rules = .ok parsed) (blank : u.grants = (false, 0, 0, 0))
    (done : applyRules globs parsed u = (u', .ok ())) (category command : Bytes) :
    u'.checkIdx (parseCategory category) (lookupCmdIdx command) = true ↔
      Open rules command ∧
        (category ∉ categories ∨ lastOf (isOwnRule category) rules = some (allowRule category) ∨
          Named rules command) := by
  have switch := enabled_iff read blank done
  have mask := contains_iff read blank done category
  unfold AclUser.checkIdx Open
  cases index : lookupCmdIdx command with
  | none =>
      have undenied := not_named_of_unknown read index (.inr rfl)
      have unnamed : ¬ Named rules command := by
        rintro ⟨rule, member, named⟩
        rw [not_named_of_unknown read index (.inl rfl) rule member] at named
        cases named
      rw [← switch]
      cases u'.enabled with
      | false => simp
      | true =>
          simp only [Bool.not_true, Bool.false_eq_true, if_false, mask, unnamed, or_false,
            true_and]
          exact ⟨fun own => ⟨undenied, own⟩, fun both => both.2⟩
  | some idx =>
      have denied := denied_iff read blank done index
      have allowed := allowed_iff read blank done index
      have undenied : (∀ rule ∈ rules, namesCommand 45 command rule = false) ↔
          ¬ (u'.deniedCommands &&& commandBit idx ≠ 0) := by
        rw [denied]
        simp
      rw [undenied, ← switch, ← or_assoc, ← mask, ← allowed]
      cases u'.enabled with
      | false => simp
      | true =>
          by_cases gone : u'.deniedCommands &&& commandBit idx = 0
          · simp [gone]
          · simp

theorem authorizeCommand_iff {acl acl' : Acl} {username : Bytes}
    (accepted : acl.aclSetuser globs username rules = (acl', .ok ())) (category command : Bytes) :
    acl'.authorizeCommand username category command = .ok () ↔
      Open rules command ∧
        (category ∉ categories ∨ lastOf (isOwnRule category) rules = some (allowRule category) ∨
          Named rules command) := by
  obtain ⟨parsed, found, mid, set, read, applied, rebuilt, rfl⟩ := aclSetuser_accepted accepted
  have same : set.grants = mid.grants := grants_rebuilt rebuilt
  have decided : set.checkIdx (parseCategory category) (lookupCmdIdx command) =
      mid.checkIdx (parseCategory category) (lookupCmdIdx command) := by
    simp only [AclUser.grants, Prod.mk.injEq] at same
    simp only [AclUser.checkIdx, same]
  have stored : Acl.aclGetuser ⟨Assoc.insert acl.users username set⟩ username = some set := by
    rw [Acl.aclGetuser, Assoc.get_insert, if_pos rfl]
  rw [← checkIdx_iff read (grants_resetRules found) applied category command, ← decided,
    Acl.authorizeCommand, stored]
  by_cases passes : set.checkIdx (parseCategory category) (lookupCmdIdx command) = true
  · simp [passes]
  · simp [passes]

/-- Where a category is known, the code follows its own rules and the intent follows `+@all` too. -/
theorem own_or_all {category : Bytes} :
    ((lastOf (isCategoryRule category) rules).any fun rule => rule.head? = some 43) = true ↔
      lastOf (isOwnRule category) rules = some (allowRule category) ∨
        (lastOf (isCategoryRule category) rules = some allowAll ∧
          lastOf (isOwnRule category) rules ≠ some (allowRule category)) := by
  have narrower : ∀ rule, isOwnRule category rule = true → isCategoryRule category rule = true := by
    intro rule own
    simp [isCategoryRule, own]
  constructor
  · intro allowing
    by_cases own : lastOf (isOwnRule category) rules = some (allowRule category)
    · exact .inl own
    cases last : lastOf (isCategoryRule category) rules with
    | none => simp [last] at allowing
    | some rule =>
        have shape := lastOf_sat last
        simp only [isCategoryRule, isOwnRule, Bool.or_eq_true, decide_eq_true_eq] at shape
        rcases shape with (rfl | rfl) | rfl
        · exact absurd (lastOf_narrow narrower last (by simp [isOwnRule])) own
        · simp [last, denyRule_eq] at allowing
        · exact .inr ⟨rfl, own⟩
  · rintro (own | ⟨all, -⟩)
    · rcases lastOf_widen narrower own with last | ⟨later, last, outside⟩
      · rw [last]
        simp [allowRule_eq]
      · have shape := lastOf_sat last
        simp only [isCategoryRule, outside, Bool.false_or, decide_eq_true_eq] at shape
        rw [last, shape]
        decide
    · rw [all]
      decide

theorem authorizes_as_permitted_iff (globs : Globs) (acl acl' : Acl) (username : Bytes)
    (rules : List Bytes) (accepted : acl.aclSetuser globs username rules = (acl', .ok ()))
    (category command : Bytes) :
    (acl'.authorizeCommand username category command = .ok () ↔ Permits rules category command) ↔
      ¬ Misjudged rules category command := by
  rw [authorizeCommand_iff accepted, Permits, Misjudged]
  by_cases known : category ∈ categories
  · rw [own_or_all]
    simp only [known, not_true_eq_false, false_or, true_and]
    tauto
  · simp only [known, not_false_eq_true, true_or, false_and, false_or, and_true]
    tauto

end

/-- A `globset` that takes every pattern. -/
def anyGlobs : Globs := ⟨fun _ => true, fun _ => true, fun _ _ => true⟩

theorem authorizes_as_permitted_read :
    Acl.authorizeCommand
        (Acl.empty.aclSetuser anyGlobs (bytesOf "anton") [bytesOf "on", bytesOf "+@read"]).1
        (bytesOf "anton") (bytesOf "read") (bytesOf "get") = .ok () ∧
      (Acl.authorizeCommand
          (Acl.empty.aclSetuser anyGlobs (bytesOf "anton") [bytesOf "on", bytesOf "+@read"]).1
          (bytesOf "anton") (bytesOf "read") (bytesOf "get") = .ok () ↔
        Permits [bytesOf "on", bytesOf "+@read"] (bytesOf "read") (bytesOf "get")) := by
  refine ⟨by decide +kernel, ?_⟩
  refine (authorizes_as_permitted_iff anyGlobs Acl.empty _ (bytesOf "anton")
    [bytesOf "on", bytesOf "+@read"] (by rfl) (bytesOf "read") (bytesOf "get")).mpr ?_
  rintro ⟨-, -, unknown | ⟨all, -⟩⟩
  · exact unknown (by decide)
  · exact absurd all (by decide)

/-- After `on` and `+@all`, `GET` of category `read` is refused. -/
theorem authorizes_against_rules :
    ¬ ∀ (globs : Globs) (acl acl' : Acl) (username : Bytes) (rules : List Bytes),
      acl.aclSetuser globs username rules = (acl', .ok ()) → ∀ category command : Bytes,
        (acl'.authorizeCommand username category command = .ok () ↔
          Permits rules category command) := by
  intro always
  have judged := always anyGlobs Acl.empty _ (bytesOf "anton") [bytesOf "on", bytesOf "+@all"]
    (by rfl) (bytesOf "read") (bytesOf "get")
  have permitted : Permits [bytesOf "on", bytesOf "+@all"] (bytesOf "read") (bytesOf "get") := by
    refine ⟨⟨by decide, by decide⟩, .inl ⟨by decide, by decide⟩⟩
  exact absurd (judged.mpr permitted) (by decide +kernel)

end Zumic.Auth
