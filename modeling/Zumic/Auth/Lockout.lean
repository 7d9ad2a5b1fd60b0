/- One call of `authenticate` after another for one user (`auth/manager.rs`): how long the lockout
lasts. -/

import Zumic.Auth.Attempts

namespace Zumic.Auth.Lockout

open Lib Lib.ByteString

structure Call where
  password : Bytes
  times : Readings

/-- The manager, the times of the failures since the last success or the last gap of
`BLOCK_DURATION` between two of them, oldest first, and the last reading of the clock. -/
structure Line where
  manager : AuthManager
  streak : List Nat
  now : Nat

/-- The failures in a row after one more. -/
def extend (streak : List Nat) (time : Nat) : List Nat :=
  match streak.getLast? with
  | none => [time]
  | some last => if last + blockDuration ≤ time then [time] else streak ++ [time]

def follow (streak : List Nat) (time : Nat) : Except AuthError Unit → List Nat
  | .ok () => []
  | .error .authenticationFailed => extend streak time
  | .error _ => streak

/-- What a call returns that is checked. -/
def verdict (argon2 : Argon2) (m : AuthManager) (username password : Bytes) :
    Except AuthError Unit :=
  match m.verify argon2 username password with
  | .error e => .error e
  | .ok true => .ok ()
  | .ok false => .error .authenticationFailed

namespace Line

variable (argon2 : Argon2) (username : Bytes)

def opened (m : AuthManager) (now : Nat) : Line := ⟨m, [], now⟩

/-- The clock does not go back, within a call and from one call to the next. -/
def InTime (l : Line) (c : Call) : Prop :=
  l.now ≤ c.times.blocked ∧ c.times.blocked ≤ c.times.expired ∧ c.times.expired ≤ c.times.failed

instance (l : Line) (c : Call) : Decidable (l.InTime c) := inferInstanceAs (Decidable (_ ∧ _))

def answer (l : Line) (c : Call) : AuthManager × Except AuthError Unit :=
  l.manager.authenticate argon2 username c.password c.times

def step (l : Line) (c : Call) : Option Line :=
  if l.InTime c then
    some ⟨(l.answer argon2 username c).1,
      follow l.streak c.times.failed (l.answer argon2 username c).2, c.times.failed⟩
  else none

def lastFailure (l : Line) : Option Nat := l.streak.getLast?

/-- After five failures in a row a call is refused, and from `BLOCK_DURATION` after the last of them
on it is checked again. -/
def FullTime (l : Line) (c : Call) : Prop :=
  l.InTime c → maxFails.toNat ≤ l.streak.length → ∀ last ∈ l.lastFailure,
    (c.times.blocked < last + blockDuration →
      (l.answer argon2 username c).2 = .error .tooManyAttempts) ∧
    (last + blockDuration ≤ c.times.blocked →
      (l.answer argon2 username c).2 = verdict argon2 l.manager username c.password)

/-- The record of the failures, which the call refuses on, or drops. -/
def record (l : Line) : Option (UInt8 × Nat) := Assoc.get l.manager.failures username

def refused (record : Option (UInt8 × Nat)) (times : Readings) : Bool :=
  record.any fun entry => maxFails ≤ entry.1 && times.blocked - entry.2 < blockDuration

def dropped (record : Option (UInt8 × Nat)) (times : Readings) : Bool :=
  !refused record times && record.any fun entry => blockDuration ≤ times.expired - entry.2

/-- A call that drops the record comes `BLOCK_DURATION` after the last failure, and not only after
the first. -/
def DropsLate (l : Line) (c : Call) : Prop :=
  dropped (l.record username) c.times = true →
    ∀ last ∈ l.lastFailure, last + blockDuration ≤ c.times.blocked

instance (l : Line) (c : Call) : Decidable (l.FullTime argon2 username c) :=
  inferInstanceAs (Decidable (_ → _ → _))

instance (l : Line) (c : Call) : Decidable (l.DropsLate username c) :=
  inferInstanceAs (Decidable (_ → _))

end Line

/-- What is left of a record after the check. -/
def left (record : Option (UInt8 × Nat)) (times : Readings) : Option (UInt8 × Nat) :=
  if Line.dropped record times then none else record

/-- The record after a call that was checked. -/
def recorded (record : Option (UInt8 × Nat)) (time : Nat) :
    Except AuthError Unit → Option (UInt8 × Nat)
  | .ok () => none
  | .error .authenticationFailed =>
      some ((record.getD (0, time)).1 + 1, (record.getD (0, time)).2)
  | .error _ => record

theorem left_some {record : Option (UInt8 × Nat)} {times : Readings} {entry : UInt8 × Nat}
    (held : left record times = some entry) :
    Line.dropped record times = false ∧ record = some entry := by
  unfold left at held
  split at held
  case isTrue => cases held
  case isFalse young => exact ⟨Bool.eq_false_iff.mpr young, held⟩

section

variable {argon2 : Argon2} {username : Bytes}

theorem verify_error {m : AuthManager} {password : Bytes} {e : AuthError}
    (failed : m.verify argon2 username password = .error e) : e = .userNotFound := by
  unfold AuthManager.verify at failed
  split at failed
  · exact (Except.error.inj failed).symm
  · split at failed <;> cases failed

variable (username) in
theorem checkFailures_eq (failures : Failures) (times : Readings) :
    (checkFailures failures username times).2 =
        Line.refused (Assoc.get failures username) times ∧
      Assoc.get (checkFailures failures username times).1 username =
        left (Assoc.get failures username) times := by
  unfold checkFailures
  cases found : Assoc.get failures username with
  | none => simp [Line.refused, left, found]
  | some entry =>
      obtain ⟨count, ts⟩ := entry
      simp only
      split_ifs with full old
      · have refused : Line.refused (some (count, ts)) times = true := by
          simpa [Line.refused] using full
        simp [left, Line.dropped, refused, found]
      · have free : Line.refused (some (count, ts)) times = false := by
          simpa [Line.refused] using full
        simp [left, Line.dropped, free, old, Assoc.get_erase]
      · have free : Line.refused (some (count, ts)) times = false := by
          simpa [Line.refused] using full
        have young : ¬ blockDuration ≤ times.expired - ts := old
        simp [left, Line.dropped, free, young, found]

variable (argon2 username) in
theorem authenticate_cases (m : AuthManager) (password : Bytes) (times : Readings) :
    (Line.refused (Assoc.get m.failures username) times = true ∧
        (m.authenticate argon2 username password times).2 = .error .tooManyAttempts ∧
        Assoc.get (m.authenticate argon2 username password times).1.failures username =
          Assoc.get m.failures username) ∨
      (Line.refused (Assoc.get m.failures username) times = false ∧
        (m.authenticate argon2 username password times).2 =
          verdict argon2 m username password ∧
        Assoc.get (m.authenticate argon2 username password times).1.failures username =
          recorded (left (Assoc.get m.failures username) times) times.failed
            (verdict argon2 m username password)) := by
  obtain ⟨flag, rest⟩ := checkFailures_eq username m.failures times
  unfold AuthManager.authenticate
  rcases checked : checkFailures m.failures username times with ⟨failures, blocked⟩
  rw [checked] at flag rest
  simp only at flag rest
  cases blocked with
  | true =>
      have kept : left (Assoc.get m.failures username) times = Assoc.get m.failures username := by
        simp [left, Line.dropped, ← flag]
      exact .inl ⟨flag.symm, rfl, rest.trans kept⟩
  | false =>
      refine .inr ⟨flag.symm, ?_⟩
      unfold verdict
      rcases verified : m.verify argon2 username password with e | _ | _
      · obtain rfl := verify_error verified
        exact ⟨rfl, rest⟩
      · simp [recordAttempt, recorded, Assoc.get_insert, ← rest]
      · simp [recordAttempt, recorded, Assoc.get_erase]

end

/-- What the calls keep: a record counts at least the failures in a row, up to five, and begins with
one of them or before; without a record the last failure is far away. -/
structure Kept (username : Bytes) (l : Line) : Prop where
  past : ∀ last ∈ l.lastFailure, last ≤ l.now
  unrecorded : l.record username = none → ∀ last ∈ l.lastFailure, last + blockDuration ≤ l.now
  counted : ∀ count ts, l.record username = some (count, ts) →
    ∃ last, l.lastFailure = some last ∧ ts ≤ last ∧ l.streak.length ≤ count.toNat ∧
      count.toNat ≤ maxFails.toNat

section

variable {argon2 : Argon2} {username : Bytes} {l l' : Line} {c : Call}

theorem kept_opened {m : AuthManager} (clean : Assoc.get m.failures username = none) (now : Nat) :
    Kept username (.opened m now) := by
  refine ⟨?_, ?_, ?_⟩
  · intro last none
    cases none
  · intro _ last none
    cases none
  · intro count ts found
    rw [Line.record, Line.opened, clean] at found
    cases found

theorem open_record {count : UInt8} {ts : Nat} {times : Readings}
    (ordered : times.blocked ≤ times.expired)
    (free : Line.refused (some (count, ts)) times = false)
    (held : Line.dropped (some (count, ts)) times = false) :
    count.toNat < maxFails.toNat ∧ times.expired - ts < blockDuration := by
  have young : times.expired - ts < blockDuration := by
    simpa [Line.dropped, free] using held
  have open' : maxFails ≤ count → blockDuration ≤ times.blocked - ts := by
    simpa [Line.refused] using free
  refine ⟨?_, young⟩
  by_contra full
  have old := open' (UInt8.le_iff_toNat_le.mpr (by omega))
  omega

theorem lastFailure_extend (streak : List Nat) (time : Nat) :
    (extend streak time).getLast? = some time := by
  unfold extend
  split
  · rfl
  · split_ifs <;> simp

theorem length_extend (streak : List Nat) (time : Nat) :
    (extend streak time).length ≤ streak.length + 1 := by
  unfold extend
  split
  · simp
  · split_ifs <;> simp

theorem extend_of_gap {streak : List Nat} {time : Nat}
    (gap : ∀ last ∈ streak.getLast?, last + blockDuration ≤ time) :
    extend streak time = [time] := by
  unfold extend
  split
  · rfl
  · rename_i last found
    rw [if_pos (gap last found)]

theorem kept_first {m : AuthManager} {streak : List Nat} {time : Nat}
    (gap : ∀ last ∈ streak.getLast?, last + blockDuration ≤ time)
    (first : Assoc.get m.failures username = some (1, time)) :
    Kept username ⟨m, extend streak time, time⟩ := by
  rw [extend_of_gap gap]
  refine ⟨?_, ?_, ?_⟩
  · intro last found
    obtain rfl : time = last := by simpa [Line.lastFailure] using found
    exact Nat.le_refl _
  · intro none
    exact absurd (first.symm.trans none) (by simp)
  · intro count ts found
    obtain ⟨rfl, rfl⟩ : 1 = count ∧ time = ts := by simpa using first.symm.trans found
    exact ⟨time, rfl, Nat.le_refl _, Nat.le_refl 1, by decide⟩

theorem kept_more (kept : Kept username l) {m : AuthManager} {count : UInt8} {ts time : Nat}
    (before : l.record username = some (count, ts)) (room : count.toNat < maxFails.toNat)
    (later : l.now ≤ time)
    (more : Assoc.get m.failures username = some (count + 1, ts)) :
    Kept username ⟨m, extend l.streak time, time⟩ := by
  have five : maxFails.toNat = 5 := rfl
  obtain ⟨last, found, since, counted, -⟩ := kept.counted count ts before
  have past := kept.past last found
  have next : (count + 1).toNat = count.toNat + 1 := by
    rw [UInt8.toNat_add]
    show (count.toNat + 1) % 256 = _
    omega
  refine ⟨?_, ?_, ?_⟩
  · intro last' found'
    obtain rfl : time = last' := by
      simpa [Line.lastFailure, lastFailure_extend] using found'
    exact Nat.le_refl _
  · intro none
    exact absurd (more.symm.trans none) (by simp)
  · intro count' ts' found'
    obtain ⟨rfl, rfl⟩ : count + 1 = count' ∧ ts = ts' := by simpa using more.symm.trans found'
    have length := length_extend l.streak time
    refine ⟨time, lastFailure_extend _ _, by omega, ?_, by omega⟩
    show (extend l.streak time).length ≤ _
    omega

theorem kept_idle (kept : Kept username l) {m : AuthManager} {time : Nat} (later : l.now ≤ time)
    (record : Assoc.get m.failures username = l.record username ∨
      Assoc.get m.failures username = none ∧
        ∀ last ∈ l.lastFailure, last + blockDuration ≤ time) :
    Kept username ⟨m, l.streak, time⟩ := by
  refine ⟨?_, ?_, ?_⟩
  · intro last found
    exact Nat.le_trans (kept.past last found) later
  · intro none last found
    rcases record with same | ⟨-, gap⟩
    · exact Nat.le_trans (kept.unrecorded (same.symm.trans none) last found) later
    · exact gap last found
  · intro count ts found
    rcases record with same | ⟨none, -⟩
    · exact kept.counted count ts (same.symm.trans found)
    · exact absurd (none.symm.trans found) (by simp)

theorem kept_cleared {m : AuthManager} (clean : Assoc.get m.failures username = none)
    (time : Nat) : Kept username ⟨m, [], time⟩ :=
  kept_opened clean time

variable (argon2 username) in
theorem verdict_cases (m : AuthManager) (password : Bytes) :
    verdict argon2 m username password = .error .userNotFound ∨
      verdict argon2 m username password = .ok () ∨
      verdict argon2 m username password = .error .authenticationFailed := by
  unfold verdict
  rcases verified : m.verify argon2 username password with e | _ | _
  · obtain rfl := verify_error verified
    exact .inl rfl
  · exact .inr (.inr rfl)
  · exact .inr (.inl rfl)

theorem kept_step (kept : Kept username l) (late : l.DropsLate username c)
    (stepped : l.step argon2 username c = some l') : Kept username l' := by
  unfold Line.step at stepped
  split at stepped
  case isFalse => cases stepped
  case isTrue inTime =>
    obtain ⟨first, second, third⟩ := inTime
    have later : l.now ≤ c.times.failed := by omega
    obtain rfl := Option.some.inj stepped
    have far (none : left (l.record username) c.times = none) :
        ∀ last ∈ l.lastFailure, last + blockDuration ≤ c.times.failed := by
      intro last found
      unfold left at none
      split at none
      · have gap := late ‹_› last found
        omega
      · have gap := kept.unrecorded none last found
        omega
    rcases authenticate_cases argon2 username l.manager c.password c.times
      with ⟨refused, result, record⟩ | ⟨free, result, record⟩
    · rw [Line.answer, result]
      exact kept_idle kept later (.inl record)
    · rcases verdict_cases argon2 username l.manager c.password
        with unknown | passed | failed
      · rw [unknown] at record result
        rw [Line.answer, result]
        refine kept_idle kept later ?_
        cases held : left (l.record username) c.times with
        | none => exact .inr ⟨record.trans held, far held⟩
        | some entry =>
            exact .inl (record.trans (held.trans (left_some held).2.symm))
      · rw [passed] at record result
        rw [Line.answer, result]
        exact kept_cleared record _
      · rw [failed] at record result
        rw [Line.answer, result]
        cases held : left (l.record username) c.times with
        | none =>
            refine kept_first (far held) (record.trans ?_)
            rw [recorded, show left (Assoc.get _ _) _ = none from held]
            rfl
        | some entry =>
            obtain ⟨count, ts⟩ := entry
            obtain ⟨young, before⟩ := left_some held
            have free' : Line.refused (l.record username) c.times = false := free
            rw [before] at young free'
            refine kept_more kept before (open_record second free' young).1 later
              (record.trans ?_)
            rw [recorded, show left (Assoc.get _ _) _ = some (count, ts) from held]
            rfl

theorem fullTime_of_kept (kept : Kept username l) (late : l.DropsLate username c) :
    l.FullTime argon2 username c := by
  rintro ⟨first, second, third⟩ full last found
  have five : maxFails.toNat = 5 := rfl
  have positive : 0 < blockDuration := by decide
  have past := kept.past last found
  rcases authenticate_cases argon2 username l.manager c.password c.times
    with ⟨refused, result, -⟩ | ⟨free, result, -⟩
  · refine ⟨fun _ => result, fun late' => ?_⟩
    -- the record began with the last failure or before it
    unfold Line.refused at refused
    obtain ⟨⟨count, ts⟩, record, blocked⟩ := (Option.any_eq_true _ _).mp refused
    obtain ⟨last', found', since, -, -⟩ := kept.counted count ts record
    obtain rfl : last = last' := Option.some.inj (found.symm.trans found')
    simp only [Bool.and_eq_true, decide_eq_true_eq] at blocked
    omega
  · refine ⟨fun early => ?_, fun _ => result⟩
    cases record : l.record username with
    | none =>
        have gap := kept.unrecorded record last found
        omega
    | some entry =>
        obtain ⟨count, ts⟩ := entry
        obtain ⟨last', found', since, counted, -⟩ := kept.counted count ts record
        have free' : Line.refused (l.record username) c.times = false := free
        rw [record] at free'
        have held : Line.dropped (some (count, ts)) c.times = false := by
          by_contra drops
          have gap := late (by rw [record]; simpa using drops) last found
          omega
        have room := (open_record second free' held).1
        omega

/-- A lockout lasts its full time in every run of calls that drop the record late. -/
theorem lockout_run (argon2 : Argon2) (m : AuthManager) (username : Bytes) (now : Nat)
    (clean : Assoc.get m.failures username = none) (calls : List Call)
    (late : Runs.Along (Line.step argon2 username) (Line.DropsLate username) (.opened m now)
      calls) :
    Runs.Along (Line.step argon2 username) (Line.FullTime argon2 username) (.opened m now)
      calls :=
  Runs.along_of_kept (fun _ _ _ => kept_step) (fun _ _ => fullTime_of_kept) (kept_opened clean now)
    late

end

/-- A call for the one user, made within one reading of the clock, in seconds. -/
def callAt (password : String) (seconds : Nat) : Call :=
  ⟨bytesOf password, ⟨seconds * 1000000000, seconds * 1000000000, seconds * 1000000000⟩⟩

/-- Five failures within a second, a call with the password while the lockout lasts, and one after
it. -/
def burst : List Call :=
  List.replicate 5 (callAt "x" 1) ++ [callAt "secret" 60, callAt "secret" 61]

theorem lockout_run_burst :
    Runs.Along (Line.step openArgon2 (bytesOf "anton"))
      (Line.FullTime openArgon2 (bytesOf "anton")) (.opened Attempts.antonManager 0) burst :=
  lockout_run openArgon2 Attempts.antonManager (bytesOf "anton") 0 rfl burst (by decide +kernel)

/-- Five failures ten seconds apart, and a call with the password twenty seconds after the last of
them: the record, which began with the first one, is dropped. -/
def spread : List Call :=
  [callAt "x" 1, callAt "x" 11, callAt "x" 21, callAt "x" 31, callAt "x" 41, callAt "secret" 61]

theorem not_lockout_spread :
    ¬ ∀ (argon2 : Argon2) (m : AuthManager) (username : Bytes) (now : Nat),
      Assoc.get m.failures username = none → ∀ calls : List Call,
        Runs.Along (Line.step argon2 username) (Line.FullTime argon2 username) (.opened m now)
          calls := by
  intro always
  have full := always openArgon2 Attempts.antonManager (bytesOf "anton") 0 rfl spread
  exact absurd full (by decide +kernel)

end Zumic.Auth.Lockout
