/- Many calls of `authenticate` at once (`auth/manager.rs`). A step is one section of one call: the
check of the failures, the verification of the password, the record of the outcome. -/

import Zumic.Auth.Manager
import Zumic.Lib.Runs
import Zumic.Lib.Tasks

namespace Zumic.Auth.Attempts

open Lib Lib.ByteString

inductive Phase where
  | begun
  | admitted
  | verified (ok : Bool)
  | returned (result : Except AuthError Unit)

structure Attempt where
  username : Bytes
  password : Bytes
  phase : Phase

namespace Attempt

/-- Past the check, and without a record so far. -/
def inFlight (a : Attempt) : Bool :=
  match a.phase with
  | .admitted | .verified _ => true
  | _ => false

def recorded (a : Attempt) : Bool :=
  match a.phase with
  | .returned (.error .authenticationFailed) => true
  | _ => false

def passed (a : Attempt) : Bool := a.inFlight || a.recorded

/-- The verification was reached and did not succeed. -/
def failed (a : Attempt) : Bool :=
  match a.phase with
  | .verified false | .returned (.error .authenticationFailed) => true
  | _ => false

def done (a : Attempt) : Bool :=
  match a.phase with
  | .returned _ => true
  | _ => false

end Attempt

/-- The manager and the calls; `overflowed` says that a counter of failures has left `u8`. -/
structure Desk where
  manager : AuthManager
  attempts : List Attempt
  overflowed : Bool

inductive Event where
  | begin (username password : Bytes)
  | advance (i : Nat) (times : Readings)

def counter (failures : Failures) (username : Bytes) : UInt8 :=
  ((Assoc.get failures username).getD (0, 0)).1

namespace Desk

variable (argon2 : Argon2)

def move (d : Desk) (i : Nat) (a : Attempt) (failures : Failures) (phase : Phase) : Desk :=
  { d with
    manager := { d.manager with failures := failures }
    attempts := d.attempts.set i { a with phase := phase } }

/-- The next section of a call; `none` when it has returned. -/
def advance (d : Desk) (i : Nat) (a : Attempt) (times : Readings) : Option Desk :=
  match a.phase with
  | .begun =>
      match checkFailures d.manager.failures a.username times with
      | (failures, true) => some (d.move i a failures (.returned (.error .tooManyAttempts)))
      | (failures, false) => some (d.move i a failures .admitted)
  | .admitted =>
      match d.manager.verify argon2 a.username a.password with
      | .error e => some (d.move i a d.manager.failures (.returned (.error e)))
      | .ok ok => some (d.move i a d.manager.failures (.verified ok))
  | .verified ok =>
      match recordAttempt d.manager.failures a.username times ok with
      | (failures, result) =>
          some
            { manager := { d.manager with failures := failures }
              attempts := d.attempts.set i { a with phase := .returned result }
              overflowed :=
                d.overflowed || (!ok && counter d.manager.failures a.username == 255) }
  | .returned _ => none

def step (d : Desk) : Event → Option Desk
  | .begin username password =>
      some { d with attempts := d.attempts ++ [⟨username, password, .begun⟩] }
  | .advance i times => d.attempts[i]?.bind fun a => d.advance argon2 i a times

def opened (m : AuthManager) : Desk := ⟨m, [], false⟩

/-- The step is a check that lets its call pass. -/
def Admits (d : Desk) : Event → Prop
  | .begin _ _ => False
  | .advance i times => ∃ a, d.attempts[i]? = some a ∧ a.phase = .begun ∧
      (checkFailures d.manager.failures a.username times).2 = false

/-- A call that passes the check finds fewer than five calls between their check and their record,
the recorded failures included. -/
def Spaced (username : Bytes) (d : Desk) (e : Event) : Prop :=
  d.Admits e →
    (counter d.manager.failures username).toNat + d.attempts.countP Attempt.inFlight <
      maxFails.toNat

/-- The bound on the guesses. -/
def Bounded (d : Desk) : Prop :=
  d.attempts.countP Attempt.failed ≤ maxFails.toNat ∧ d.overflowed = false

end Desk

/-- Calls for the one user, with passwords that the manager does not verify, and readings of the
clock within one `BLOCK_DURATION`. -/
def Fits (argon2 : Argon2) (m : AuthManager) (username : Bytes) (t₀ : Nat) : Event → Prop
  | .begin name password => name = username ∧ m.verify argon2 username password = .ok false
  | .advance _ times => (t₀ ≤ times.failed) ∧ times.blocked < t₀ + blockDuration ∧
      times.expired < t₀ + blockDuration

/-- What the sections keep: the counter is the number of recorded failures modulo 256. -/
structure Kept (argon2 : Argon2) (m : AuthManager) (username : Bytes) (t₀ : Nat) (d : Desk) :
    Prop where
  users : d.manager.acl = m.acl
  pepper : d.manager.pepper = m.pepper
  wrong : ∀ (i : Nat) (a : Attempt), d.attempts[i]? = some a →
    a.username = username ∧ m.verify argon2 username a.password = .ok false ∧
      a.phase ≠ .verified true
  counted : counter d.manager.failures username =
    UInt8.ofNat (d.attempts.countP Attempt.recorded)
  since : ∀ entry ∈ Assoc.get d.manager.failures username, t₀ ≤ entry.2
  wrapped : d.overflowed = true → 256 ≤ d.attempts.countP Attempt.recorded

section

variable {argon2 : Argon2} {m : AuthManager} {username : Bytes} {t₀ : Nat}

theorem verify_fixed {d : Desk} (kept : Kept argon2 m username t₀ d) (name password : Bytes) :
    d.manager.verify argon2 name password = m.verify argon2 name password := by
  unfold AuthManager.verify
  rw [kept.users, kept.pepper]

theorem checkFailures_window {failures : Failures} {times : Readings}
    (since : ∀ entry ∈ Assoc.get failures username, t₀ ≤ entry.2)
    (expired : times.expired < t₀ + blockDuration) :
    (checkFailures failures username times).1 = failures := by
  unfold checkFailures
  cases found : Assoc.get failures username with
  | none => rfl
  | some entry =>
      obtain ⟨count, ts⟩ := entry
      have early : t₀ ≤ ts := since (count, ts) found
      have positive : 0 < blockDuration := by decide
      have recent : ¬ blockDuration ≤ times.expired - ts := by omega
      simp only [recent, if_false]
      split <;> rfl

theorem kept_move {d : Desk} (kept : Kept argon2 m username t₀ d) {i : Nat} {a : Attempt}
    (here : d.attempts[i]? = some a) {phase : Phase} (unrecorded : a.recorded = false)
    (silent : ({ a with phase := phase } : Attempt).recorded = false)
    (wrong : phase ≠ .verified true) :
    Kept argon2 m username t₀ (d.move i a d.manager.failures phase) := by
  have still := Tasks.countP_move Attempt.recorded ({ a with phase := phase } : Attempt) here
  rw [unrecorded, silent] at still
  simp only [Bool.false_eq_true, if_false, Nat.add_zero] at still
  refine ⟨kept.users, kept.pepper, ?_, ?_, kept.since, ?_⟩
  · intro j b read
    rcases Tasks.getElem?_move read with ⟨-, rfl⟩ | ⟨-, old⟩
    · exact ⟨(kept.wrong i a here).1, (kept.wrong i a here).2.1, wrong⟩
    · exact kept.wrong j b old
  · rw [Desk.move, still]
    exact kept.counted
  · intro flag
    rw [Desk.move, still]
    exact kept.wrapped flag

theorem kept_begin {d : Desk} (kept : Kept argon2 m username t₀ d) {password : Bytes}
    (wrong : m.verify argon2 username password = .ok false) :
    Kept argon2 m username t₀
      { d with attempts := d.attempts ++ [⟨username, password, .begun⟩] } := by
  have still : (d.attempts ++ [(⟨username, password, .begun⟩ : Attempt)]).countP Attempt.recorded =
      d.attempts.countP Attempt.recorded := by
    rw [List.countP_append]
    rfl
  refine ⟨kept.users, kept.pepper, ?_, ?_, kept.since, ?_⟩
  · intro j b read
    rcases Tasks.getElem?_begin read with ⟨-, rfl⟩ | ⟨-, old⟩
    · refine ⟨rfl, wrong, ?_⟩
      intro same
      cases same
    · exact kept.wrong j b old
  · rw [still]
    exact kept.counted
  · intro flag
    rw [still]
    exact kept.wrapped flag

theorem recordAttempt_failed {failures : Failures} {times : Readings}
    (since : ∀ entry ∈ Assoc.get failures username, t₀ ≤ entry.2) (late : t₀ ≤ times.failed) :
    counter (recordAttempt failures username times false).1 username =
        counter failures username + 1 ∧
      ∀ entry ∈ Assoc.get (recordAttempt failures username times false).1 username,
        t₀ ≤ entry.2 := by
  simp only [recordAttempt, counter, Assoc.get_insert, if_true]
  cases found : Assoc.get failures username with
  | none => simpa using late
  | some entry => simpa using since entry found

theorem kept_record {d : Desk} (kept : Kept argon2 m username t₀ d) {i : Nat} {a : Attempt}
    (here : d.attempts[i]? = some a) (verified : a.phase = .verified false) {times : Readings}
    (late : t₀ ≤ times.failed) :
    Kept argon2 m username t₀
      { manager :=
          { d.manager with
            failures := (recordAttempt d.manager.failures a.username times false).1 }
        attempts :=
          d.attempts.set i { a with phase := .returned (.error .authenticationFailed) }
        overflowed := d.overflowed || counter d.manager.failures a.username == 255 } := by
  obtain ⟨rfl, wrong, -⟩ := kept.wrong i a here
  have more := Tasks.countP_move Attempt.recorded
    ({ a with phase := .returned (.error .authenticationFailed) } : Attempt) here
  have unrecorded : a.recorded = false := by simp [Attempt.recorded, verified]
  rw [unrecorded, show (Attempt.recorded { a with
    phase := .returned (.error .authenticationFailed) }) = true from rfl] at more
  simp only [Bool.false_eq_true, if_false, if_true, Nat.add_zero] at more
  obtain ⟨counted, since⟩ := @recordAttempt_failed a.username t₀ _ times kept.since late
  refine ⟨kept.users, kept.pepper, ?_, ?_, since, ?_⟩
  · intro j b read
    rcases Tasks.getElem?_move read with ⟨-, rfl⟩ | ⟨-, old⟩
    · refine ⟨rfl, wrong, ?_⟩
      intro same
      cases same
    · exact kept.wrong j b old
  · show counter _ a.username = UInt8.ofNat ((d.attempts.set i _).countP Attempt.recorded)
    rw [counted, kept.counted, more, UInt8.ofNat_add]
    rfl
  · intro flag
    show 256 ≤ (d.attempts.set i _).countP Attempt.recorded
    rw [more]
    rcases Bool.or_eq_true_iff.mp flag with before | full
    · exact Nat.le_succ_of_le (kept.wrapped before)
    · rw [kept.counted, beq_iff_eq] at full
      have last := congrArg UInt8.toNat full
      simp only [UInt8.toNat_ofNat'] at last
      have top : (255 : UInt8).toNat = 255 := rfl
      omega

theorem passed_move {d : Desk} {i : Nat} {a : Attempt} (here : d.attempts[i]? = some a)
    (phase : Phase) {before after : Bool} (was : a.passed = before)
    (becomes : ({ a with phase := phase } : Attempt).passed = after) :
    (d.attempts.set i { a with phase := phase }).countP Attempt.passed +
        (if before then 1 else 0) =
      d.attempts.countP Attempt.passed + (if after then 1 else 0) := by
  have moved := Tasks.countP_move Attempt.passed ({ a with phase := phase } : Attempt) here
  rw [was, becomes] at moved
  exact moved

theorem kept_step {d d' : Desk} {e : Event} (kept : Kept argon2 m username t₀ d)
    (fits : Fits argon2 m username t₀ e) (stepped : d.step argon2 e = some d') :
    Kept argon2 m username t₀ d' ∧
      ((d.Admits e ∧ d'.attempts.countP Attempt.passed =
          d.attempts.countP Attempt.passed + 1) ∨
        (¬ d.Admits e ∧
          d'.attempts.countP Attempt.passed = d.attempts.countP Attempt.passed)) := by
  cases e with
  | begin name password =>
      obtain ⟨rfl, wrong⟩ := fits
      obtain rfl := Option.some.inj stepped
      refine ⟨kept_begin kept wrong, .inr ⟨id, ?_⟩⟩
      rw [List.countP_append]
      rfl
  | advance i times =>
      obtain ⟨late, -, expired⟩ := fits
      obtain ⟨a, here, stepped⟩ := Option.bind_eq_some_iff.mp stepped
      obtain ⟨rfl, wrong, unsure⟩ := kept.wrong i a here
      unfold Desk.advance at stepped
      rcases phase : a.phase with _ | _ | ok | result
      · -- the check
        have unrecorded : a.recorded = false := by simp [Attempt.recorded, phase]
        have unpassed : a.passed = false := by
          simp [Attempt.passed, Attempt.inFlight, Attempt.recorded, phase]
        have same := checkFailures_window kept.since expired
        rw [phase] at stepped
        simp only at stepped
        rcases checked : checkFailures d.manager.failures a.username times with ⟨failures, blocked⟩
        rw [checked] at stepped same
        obtain rfl : failures = d.manager.failures := same
        cases blocked with
        | true =>
            obtain rfl := Option.some.inj stepped
            refine ⟨kept_move kept here unrecorded rfl (by simp), .inr ⟨?_, ?_⟩⟩
            · rintro ⟨b, read, -, open_⟩
              obtain rfl := Option.some.inj (here.symm.trans read)
              rw [checked] at open_
              cases open_
            · exact passed_move here _ unpassed rfl
        | false =>
            obtain rfl := Option.some.inj stepped
            refine ⟨kept_move kept here unrecorded rfl (by simp), .inl ⟨?_, ?_⟩⟩
            · exact ⟨a, here, phase, by rw [checked]⟩
            · exact passed_move here _ unpassed rfl
      all_goals
        have unadmitted : ¬ d.Admits (.advance i times) := by
          rintro ⟨b, read, begun, -⟩
          obtain rfl := Option.some.inj (here.symm.trans read)
          rw [phase] at begun
          cases begun
      · -- the verification
        have unrecorded : a.recorded = false := by simp [Attempt.recorded, phase]
        have passed : a.passed = true := by simp [Attempt.passed, Attempt.inFlight, phase]
        rw [phase] at stepped
        simp only [verify_fixed kept, wrong] at stepped
        obtain rfl := Option.some.inj stepped
        refine ⟨kept_move kept here unrecorded rfl (by simp), .inr ⟨unadmitted, ?_⟩⟩
        exact Nat.succ.inj (passed_move here _ passed rfl)
      · -- the record
        have passed : a.passed = true := by simp [Attempt.passed, Attempt.inFlight, phase]
        cases ok with
        | true => exact absurd phase unsure
        | false =>
            rw [phase] at stepped
            obtain rfl := Option.some.inj stepped
            refine ⟨kept_record kept here phase late, .inr ⟨unadmitted, ?_⟩⟩
            exact Nat.succ.inj (passed_move here _ passed rfl)
      · rw [phase] at stepped
        cases stepped

theorem passed_eq (attempts : List Attempt) : attempts.countP Attempt.passed =
    attempts.countP Attempt.inFlight + attempts.countP Attempt.recorded := by
  refine Tasks.countP_or (fun a flying => ?_) attempts
  unfold Attempt.inFlight at flying
  unfold Attempt.recorded
  cases phase : a.phase <;> simp [phase] at flying ⊢

/-- As long as the counter has not wrapped, it and the calls in flight are all that have passed. -/
theorem counter_eq {d : Desk} (kept : Kept argon2 m username t₀ d) :
    (counter d.manager.failures username).toNat =
      d.attempts.countP Attempt.recorded % 256 := by
  rw [kept.counted]
  exact UInt8.toNat_ofNat'

/-- Along a run: spaced checks let at most five calls pass, and only spaced checks do. -/
theorem passed_run {d d' : Desk} {events : List Event} (kept : Kept argon2 m username t₀ d)
    (fits : ∀ e ∈ events, Fits argon2 m username t₀ e)
    (ran : Runs.run (Desk.step argon2) d events = some d') :
    Kept argon2 m username t₀ d' ∧
      d.attempts.countP Attempt.passed ≤ d'.attempts.countP Attempt.passed ∧
      (d.attempts.countP Attempt.passed ≤ 5 →
        Runs.Along (Desk.step argon2) (Desk.Spaced username) d events →
          d'.attempts.countP Attempt.passed ≤ 5) ∧
      (d'.attempts.countP Attempt.passed ≤ 5 →
        Runs.Along (Desk.step argon2) (Desk.Spaced username) d events) := by
  induction events generalizing d with
  | nil =>
      obtain rfl := Option.some.inj ran
      exact ⟨kept, Nat.le_refl _, fun few _ => few, fun _ => trivial⟩
  | cons e events ih =>
      rw [Runs.run, List.foldlM_cons] at ran
      obtain ⟨next, stepped, ran⟩ := Option.bind_eq_some_iff.mp ran
      obtain ⟨kept_next, passed⟩ := kept_step kept (fits e List.mem_cons_self) stepped
      obtain ⟨kept', grown, few, spaced⟩ :=
        ih kept_next (fun e' member => fits e' (List.mem_cons_of_mem e member)) ran
      have split := passed_eq d.attempts
      have counted := counter_eq kept
      have five : maxFails.toNat = 5 := rfl
      refine ⟨kept', by omega, ?_, ?_⟩
      · rintro start ⟨now, along⟩
        refine few ?_ (along next stepped)
        rcases passed with ⟨admits, more⟩ | ⟨-, same⟩
        · have room := now admits
          omega
        · omega
      · intro last
        refine .cons ?_ stepped (spaced last)
        intro admits
        rcases passed with ⟨-, more⟩ | ⟨idle, -⟩
        · omega
        · exact absurd admits idle

theorem failed_le_passed (attempts : List Attempt) :
    attempts.countP Attempt.failed ≤ attempts.countP Attempt.passed := by
  refine List.countP_mono_left fun a _ failed => ?_
  unfold Attempt.failed at failed
  unfold Attempt.passed Attempt.inFlight Attempt.recorded
  rcases phase : a.phase with _ | _ | ok | result
  · simp [phase] at failed
  · rfl
  · rfl
  · rw [phase] at failed
    split at failed <;> simp_all

theorem passed_le_failed {attempts : List Attempt} (returned : ∀ a ∈ attempts, a.done = true) :
    attempts.countP Attempt.passed ≤ attempts.countP Attempt.failed := by
  refine List.countP_mono_left fun a member passed => ?_
  have done := returned a member
  unfold Attempt.done at done
  unfold Attempt.passed Attempt.inFlight Attempt.recorded at passed
  unfold Attempt.failed
  rcases phase : a.phase with _ | _ | ok | result
  · simp [phase] at done
  · simp [phase] at done
  · simp [phase] at done
  · rw [phase] at passed
    simp only [Bool.false_or] at passed
    split at passed <;> simp_all

theorem kept_opened (clean : Assoc.get m.failures username = none) :
    Kept argon2 m username t₀ (.opened m) := by
  refine ⟨rfl, rfl, ?_, ?_, ?_, ?_⟩
  · intro i a read
    cases read
  · simp [Desk.opened, counter, clean]
  · intro entry found
    rw [Desk.opened, clean] at found
    cases found
  · intro flag
    cases flag

end

/-- With spaced checks the guesses are bounded in every state, and where all calls have returned
they are bounded only then. -/
theorem bounded_iff_spaced (argon2 : Argon2) (m : AuthManager) (username : Bytes) (t₀ : Nat)
    (clean : Assoc.get m.failures username = none) (events : List Event)
    (fits : ∀ e ∈ events, Fits argon2 m username t₀ e) (d : Desk)
    (ran : Runs.run (Desk.step argon2) (.opened m) events = some d) :
    (Runs.Along (Desk.step argon2) (Desk.Spaced username) (.opened m) events → d.Bounded) ∧
      ((∀ a ∈ d.attempts, a.done = true) → d.Bounded →
        Runs.Along (Desk.step argon2) (Desk.Spaced username) (.opened m) events) := by
  obtain ⟨kept, -, few, spaced⟩ := passed_run (kept_opened clean) fits ran
  constructor
  · intro along
    have passed := few (by simp [Desk.opened]) along
    have failed := failed_le_passed d.attempts
    have split := passed_eq d.attempts
    refine ⟨Nat.le_trans failed passed, ?_⟩
    cases flag : d.overflowed with
    | false => rfl
    | true =>
        have wrapped := kept.wrapped flag
        omega
  · rintro returned ⟨failed, -⟩
    exact spaced (Nat.le_trans (passed_le_failed returned) failed)

/-- One user, whose password is `secret`. -/
def antonManager : AuthManager where
  acl := ⟨[(bytesOf "anton",
    { AclUser.blank (bytesOf "anton") with passwordHashes := [bytesOf "$$secret"] })]⟩
  pepper := none
  failures := []

def guess : Event := .begin (bytesOf "anton") (bytesOf "x")

def turn (i : Nat) : Event := .advance i ⟨1, 1, 1⟩

theorem fits_guess : Fits openArgon2 antonManager (bytesOf "anton") 1 guess :=
  ⟨rfl, by decide +kernel⟩

theorem fits_turn (i : Nat) : Fits openArgon2 antonManager (bytesOf "anton") 1 (turn i) :=
  ⟨Nat.le_refl 1, by decide, by decide⟩

/-- Five guesses at once, section by section, and a sixth call that is checked after them. -/
def shifts : List Event :=
  List.replicate 6 guess ++ (List.range 5).map turn ++ (List.range 5).map turn ++
    (List.range 5).map turn ++ [turn 5]

instance (a : Attempt) : Decidable (a.phase = .begun) :=
  match a.phase with
  | .begun => isTrue rfl
  | .admitted => isFalse nofun
  | .verified _ => isFalse nofun
  | .returned _ => isFalse nofun

instance (d : Desk) : (e : Event) → Decidable (d.Admits e)
  | .begin _ _ => inferInstanceAs (Decidable False)
  | .advance i times => inferInstanceAs (Decidable (∃ a ∈ d.attempts[i]?, a.phase = .begun ∧
      (checkFailures d.manager.failures a.username times).2 = false))

instance (username : Bytes) (d : Desk) (e : Event) : Decidable (d.Spaced username e) :=
  inferInstanceAs (Decidable (_ → _))

theorem bounded_five_guesses :
    ∃ d, Runs.run (Desk.step openArgon2) (.opened antonManager) shifts = some d ∧
      d.attempts.countP Attempt.failed = 5 ∧ d.Bounded := by
  obtain ⟨d, ran, five⟩ : ∃ d,
      Runs.run (Desk.step openArgon2) (.opened antonManager) shifts = some d ∧
        d.attempts.countP Attempt.failed = 5 := ⟨_, rfl, by decide +kernel⟩
  have fits : ∀ e ∈ shifts, Fits openArgon2 antonManager (bytesOf "anton") 1 e := by
    intro e member
    simp only [shifts, List.mem_append, List.mem_map, List.mem_replicate, List.mem_singleton]
      at member
    rcases member with (((⟨-, rfl⟩ | ⟨i, -, rfl⟩) | ⟨i, -, rfl⟩) | ⟨i, -, rfl⟩) | rfl
    · exact fits_guess
    all_goals exact fits_turn _
  have spaced : Runs.Along (Desk.step openArgon2) (Desk.Spaced (bytesOf "anton"))
      (.opened antonManager) shifts := by decide +kernel
  exact ⟨d, ran, five,
    (bounded_iff_spaced openArgon2 antonManager (bytesOf "anton") 1 rfl _ fits d ran).1 spaced⟩

/-- Six calls that pass the check before the first of them records its failure. -/
def rush : List Event :=
  List.replicate 6 guess ++ (List.range 6).map turn ++ (List.range 6).map turn

theorem rush_unbounded :
    ¬ ∀ (argon2 : Argon2) (m : AuthManager) (username : Bytes) (t₀ : Nat),
      Assoc.get m.failures username = none → ∀ events : List Event,
        (∀ e ∈ events, Fits argon2 m username t₀ e) → ∀ d,
          Runs.run (Desk.step argon2) (.opened m) events = some d → d.Bounded := by
  intro always
  have fits : ∀ e ∈ rush, Fits openArgon2 antonManager (bytesOf "anton") 1 e := by
    intro e member
    simp only [rush, List.mem_append, List.mem_map, List.mem_replicate] at member
    rcases member with (⟨-, rfl⟩ | ⟨i, -, rfl⟩) | ⟨i, -, rfl⟩
    · exact fits_guess
    · exact fits_turn i
    · exact fits_turn i
  obtain ⟨bounded, -⟩ := always openArgon2 antonManager (bytesOf "anton") 1 rfl rush fits _ rfl
  exact absurd bounded (by decide +kernel)

end Zumic.Auth.Attempts
