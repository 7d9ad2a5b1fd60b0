/- Runs of the counter commands (`int.rs`, `hash.rs`) on one key or field: every result is the exact
sum, and what does not fit changes nothing. -/

import Zumic.Commands.Failures
import Zumic.Lib.Runs

namespace Zumic.Commands

open Database Engine Lib Lib.ByteString Lib.Decimal Lib.Tally Lib.Utf8

/-- The errors of the readers of whole numbers. -/
inductive SdsNumericError where
  | empty
  | invalidInteger
  | overflow
  | invalidUtf8
  deriving DecidableEq

/-- A digit more, in 64 bits without a sign. -/
def pushDigit (result : Nat) (b : UInt8) : Except SdsNumericError Nat :=
  if isDigit b then
    if result * 10 + (b.toNat - 48) < 2 ^ 64 then .ok (result * 10 + (b.toNat - 48))
    else .error .overflow
  else .error .invalidInteger

def parseDigits (digits : Bytes) : Except SdsNumericError Nat :=
  if digits = [] then .error .invalidInteger else digits.foldlM pushDigit 0

/-- The hand-written parser of `sds_numeric.rs`, which no command uses. -/
def parseI64 : Bytes → Except SdsNumericError Int64
  | [] => .error .empty
  | 45 :: digits => do
      let result ← parseDigits digits
      if result ≤ 2 ^ 63 then pure (Int64.ofInt (-result)) else throw .overflow
  | 43 :: digits => do
      let result ← parseDigits digits
      if result < 2 ^ 63 then pure (Int64.ofInt result) else throw .overflow
  | digits => do
      let result ← parseDigits digits
      if result < 2 ^ 63 then pure (Int64.ofInt result) else throw .overflow

theorem parseDigits_eq_ok_iff {digits : Bytes} {n : Nat} :
    parseDigits digits = .ok n ↔ readNat digits = some n ∧ n < 2 ^ 64 := by
  unfold parseDigits readNat
  by_cases empty : digits = []
  · rw [if_pos empty, if_neg fun some => some.1 empty]
    constructor
    · intro same
      cases same
    · rintro ⟨none, -⟩
      cases none
  · have pushed := @foldlM_push _ pushDigit (2 ^ 64) push_eq_ok_iff digits 0 n (by decide)
    rw [if_neg empty, pushed]
    by_cases all : digits.all isDigit = true
    · rw [if_pos ⟨empty, all⟩, Option.some.injEq]
      have each := List.all_eq_true.mp all
      tauto
    · rw [if_neg fun both => all both.2]
      constructor
      · rintro ⟨each, -⟩
        exact absurd (List.all_eq_true.mpr each) all
      · rintro ⟨none, -⟩
        cases none

theorem bind_parseDigits_iff {digits : Bytes} {fits : Nat → Prop} [DecidablePred fits]
    (small : ∀ m, fits m → m < 2 ^ 64) (f : Nat → Int64) {n : Int64} :
    (parseDigits digits >>= fun result =>
      if fits result then pure (f result) else throw SdsNumericError.overflow) = .ok n ↔
      ((readNat digits).bind fun m => if fits m then some (f m) else none) = some n := by
  cases parsed : parseDigits digits with
  | ok m =>
      obtain ⟨read, -⟩ := parseDigits_eq_ok_iff.mp parsed
      rw [read, Option.bind_some]
      change (if fits m then pure (f m) else throw SdsNumericError.overflow) = Except.ok n ↔ _
      split
      · exact ⟨fun same => congrArg some (Except.ok.inj same),
          fun same => congrArg Except.ok (Option.some.inj same)⟩
      · constructor
        · intro same
          cases same
        · intro same
          cases same
  | error e =>
      constructor
      · intro same
        cases same
      · intro found
        obtain ⟨m, read, image⟩ := Option.bind_eq_some_iff.mp found
        split at image
        · rename_i within
          rw [parseDigits_eq_ok_iff.mpr ⟨read, small m within⟩] at parsed
          cases parsed
        · cases image

theorem parseI64_eq_ok_iff {b : Bytes} {n : Int64} : parseI64 b = .ok n ↔ readI64 b = some n := by
  unfold parseI64 readI64
  split
  · constructor
    · intro same
      cases same
    · intro found
      cases found
  · exact @bind_parseDigits_iff _ (· ≤ 2 ^ 63) _ (fun m within => by omega) _ n
  · exact @bind_parseDigits_iff _ (· < 2 ^ 63) _ (fun m within => by omega) _ n
  · rename_i signless signless'
    split
    · exact absurd rfl (signless _)
    · exact absurd rfl (signless' _)
    · exact @bind_parseDigits_iff _ (· < 2 ^ 63) _ (fun m within => by omega) _ n

theorem checkedAdd_eq (a b : Int64) : checkedAdd a b = toI64 (a.toInt + b.toInt) := by
  unfold checkedAdd
  have inside := fitsI64_toInt (a + b)
  rw [Int64.toInt_add] at inside ⊢
  split
  · rename_i exact
    refine (toI64_eq_some_iff.mpr ?_).symm
    rw [Int64.toInt_add, exact]
  · rename_i wrapped
    have beyond : ¬ FitsI64 (a.toInt + b.toInt) := by
      intro fits
      exact wrapped (Int.bmod_eq_of_le fits.1 fits.2)
    rw [toI64, if_neg beyond]

theorem checkedSub_eq (a b : Int64) : checkedSub a b = toI64 (a.toInt - b.toInt) := by
  unfold checkedSub
  rw [Int64.toInt_sub]
  split
  · rename_i exact
    refine (toI64_eq_some_iff.mpr ?_).symm
    rw [Int64.toInt_sub, exact]
  · rename_i wrapped
    have beyond : ¬ FitsI64 (a.toInt - b.toInt) := by
      intro fits
      exact wrapped (Int.bmod_eq_of_le fits.1 fits.2)
    rw [toI64, if_neg beyond]

/-- A call that counts up or down on a key. -/
inductive CounterCall where
  | incr
  | incrBy (increment : Int64)
  | decr
  | decrBy (decrement : Int64)

namespace CounterCall

def command (key : Str) : CounterCall → Command
  | incr => .incr key
  | incrBy increment => .incrBy key increment
  | decr => .decr key
  | decrBy decrement => .decrBy key decrement

/-- What the call adds, as an exact number. -/
def amount : CounterCall → Int
  | incr => 1
  | incrBy increment => increment.toInt
  | decr => -1
  | decrBy decrement => -decrement.toInt

/-- What it makes of the number that is stored. -/
def next : CounterCall → Int64 → Option Int64
  | incr, current => checkedAdd current 1
  | incrBy increment, current => checkedAdd current increment
  | decr, current => checkedSub current 1
  | decrBy decrement, current => checkedSub current decrement

theorem next_eq (call : CounterCall) (current : Int64) :
    call.next current = toI64 (current.toInt + call.amount) := by
  cases call with
  | incr => exact checkedAdd_eq current 1
  | incrBy increment => exact checkedAdd_eq current increment
  | decr => exact (checkedSub_eq current 1).trans (congrArg toI64 Int.sub_eq_add_neg)
  | decrBy decrement =>
      exact (checkedSub_eq current decrement).trans (congrArg toI64 Int.sub_eq_add_neg)

end CounterCall

/-- The number that a text stands for, if it is one of 64 bits. -/
def textNumber (text : Bytes) : Option Int := (readInt text).filter fun i => decide (FitsI64 i)

/-- The number that a key stands for. -/
def counterNumber : Option Value → Option Int
  | none => some 0
  | some (.int n) => some n.toInt
  | some (.str text) => textNumber text
  | some _ => none

/-- The number that a field of a key stands for. -/
def fieldNumber (field : Bytes) : Option Value → Option Int
  | none => some 0
  | some (.hash entries) => (Assoc.get entries field).elim (some 0) textNumber
  | some _ => none

theorem textNumber_eq (text : Bytes) : textNumber text = (readI64 text).map Int64.toInt := by
  rw [readI64_eq, textNumber]
  cases readInt text with
  | none => rfl
  | some i =>
      rw [Option.filter_some, Option.bind_some]
      by_cases fits : FitsI64 i
      · rw [toI64, if_pos fits, if_pos (decide_eq_true fits), Option.map_some,
          Int64.toInt_ofInt_of_le fits.1 fits.2]
      · rw [toI64, if_neg fits, if_neg (by simpa using fits)]
        rfl

theorem readI64_fromUtf8 (b : Bytes) :
    ((Str.fromUtf8 b).bind fun s => readI64 s.bytes) = readI64 b := by
  cases read : Str.fromUtf8 b with
  | some s => rw [Option.bind_some, Str.bytes_of_fromUtf8 read]
  | none =>
      rw [Option.bind_none]
      symm
      by_contra number
      obtain ⟨n, number⟩ := Option.ne_none_iff_exists'.mp number
      rw [readI64_eq] at number
      obtain ⟨i, plain, -⟩ := Option.bind_eq_some_iff.mp number
      have valid := validUtf8_of_ascii (ascii_of_readInt plain)
      unfold Str.fromUtf8 at read
      rw [dif_pos valid] at read
      cases read

/-- A command that adds an amount to the number that its key stands for, where the sum fits, and
fails otherwise. -/
structure AddsExactly (number : Option Value → Option Int) (amount : Int) (f : KeyCommand) :
    Prop where
  fits : ∀ old n, number old = some n → FitsI64 (n + amount) → ∃ (total : Int64) (value : Value),
    total.toInt = n + amount ∧ f old = (.ok (.int total), .put value) ∧
      number (some value) = some (n + amount)
  refused : ∀ old, (∀ n, number old = some n → ¬ FitsI64 (n + amount)) →
    ∃ e, f old = (.err e, .keep)

theorem toI64_of_fits {i : Int} (fits : FitsI64 i) : ∃ n, toI64 i = some n ∧ n.toInt = i := by
  refine ⟨Int64.ofInt i, if_pos fits, ?_⟩
  exact Int64.toInt_ofInt_of_le fits.1 fits.2

theorem counterNumber_eq (old : Option Value) :
    counterNumber old = (old.elim (.ok 0) valueToI64).toOption.map Int64.toInt := by
  cases old with
  | none => rfl
  | some value =>
      cases value with
      | str text =>
          change textNumber text = (valueToI64 (.str text)).toOption.map Int64.toInt
          rw [textNumber_eq]
          simp only [valueToI64]
          cases readI64 text <;> rfl
      | _ => rfl

theorem count_adds (call : CounterCall) :
    AddsExactly counterNumber call.amount (count call.next) where
  fits old n number fits := by
    rw [counterNumber_eq] at number
    unfold count
    cases read : old.elim (.ok 0) valueToI64 with
    | error e =>
        rw [read] at number
        cases number
    | ok current =>
        rw [read] at number
        obtain rfl : current.toInt = n := Option.some.inj number
        obtain ⟨total, sum, exact⟩ := toI64_of_fits fits
        refine ⟨total, .int total, exact, ?_, congrArg some exact⟩
        simp only [call.next_eq, sum]
  refused old beyond := by
    rw [counterNumber_eq] at beyond
    unfold count
    cases read : old.elim (.ok 0) valueToI64 with
    | error e => exact ⟨e, rfl⟩
    | ok current =>
        rw [read] at beyond
        have outside : toI64 (current.toInt + call.amount) = none := if_neg (beyond _ rfl)
        refine ⟨overflowErr, ?_⟩
        simp only [call.next_eq, outside]

/-- The number of a field as the command reads it. -/
def readField (field : Str) (entries : List (Sds × Sds)) : Option Int64 :=
  (Assoc.get entries field.bytes).elim (some 0) fun v =>
    (Str.fromUtf8 v).bind fun s => readI64 s.bytes

theorem fieldNumber_hash (field : Str) (entries : List (Sds × Sds)) :
    fieldNumber field.bytes (some (.hash entries)) =
      (readField field entries).map Int64.toInt := by
  unfold readField
  change (Assoc.get entries field.bytes).elim (some 0) textNumber = _
  cases Assoc.get entries field.bytes with
  | none => rfl
  | some v =>
      change textNumber v = ((Str.fromUtf8 v).bind fun s => readI64 s.bytes).map Int64.toInt
      rw [readI64_fromUtf8, textNumber_eq]

/-- What `HINCRBY` makes of the fields of its hash. -/
def addToField (field : Str) (increment : Int64) (entries : List (Sds × Sds)) : Outcome × Change :=
  match readField field entries with
  | none => (.err .invalidValue, .keep)
  | some current =>
      match checkedAdd current increment with
      | none => (.err .overflow, .keep)
      | some n =>
          (.ok (.int n), .put (.hash (Assoc.insert entries field.bytes (renderInt n.toInt))))

theorem hIncrBy_eq (field : Str) (increment : Int64) :
    hIncrBy field increment =
      typed asHash (addToField field increment []) (addToField field increment) := rfl

theorem fieldNumber_insert (field : Str) (entries : List (Sds × Sds)) (n : Int64) :
    fieldNumber field.bytes
      (some (.hash (Assoc.insert entries field.bytes (renderInt n.toInt)))) = some n.toInt := by
  change (Assoc.get (Assoc.insert entries field.bytes _) field.bytes).elim (some 0) textNumber = _
  rw [Assoc.get_insert, if_pos rfl]
  change textNumber (renderInt n.toInt) = some n.toInt
  rw [textNumber_eq, readI64_renderInt]
  rfl

theorem addToField_of_fits {field : Str} {increment : Int64} {entries : List (Sds × Sds)} {n : Int}
    (number : (readField field entries).map Int64.toInt = some n)
    (fits : FitsI64 (n + increment.toInt)) : ∃ (total : Int64) (value : Value),
      total.toInt = n + increment.toInt ∧
        addToField field increment entries = (.ok (.int total), .put value) ∧
        fieldNumber field.bytes (some value) = some (n + increment.toInt) := by
  obtain ⟨current, read, rfl⟩ := Option.map_eq_some_iff.mp number
  obtain ⟨total, sum, exact⟩ := toI64_of_fits fits
  refine ⟨total, _, exact, ?_, (fieldNumber_insert field entries total).trans (congrArg some exact)⟩
  simp only [addToField, read, checkedAdd_eq, sum]

theorem addToField_refused {field : Str} {increment : Int64} {entries : List (Sds × Sds)}
    (beyond : ∀ n, (readField field entries).map Int64.toInt = some n →
      ¬ FitsI64 (n + increment.toInt)) :
    ∃ e, addToField field increment entries = (.err e, .keep) := by
  unfold addToField
  cases read : readField field entries with
  | none => exact ⟨_, rfl⟩
  | some current =>
      rw [read] at beyond
      have outside : toI64 (current.toInt + increment.toInt) = none := if_neg (beyond _ rfl)
      refine ⟨.overflow, ?_⟩
      simp only [checkedAdd_eq, outside]

theorem hIncrBy_adds (field : Str) (increment : Int64) :
    AddsExactly (fieldNumber field.bytes) increment.toInt (hIncrBy field increment) where
  fits old n number fits := by
    rw [hIncrBy_eq]
    cases old with
    | none => exact @addToField_of_fits field increment [] n number fits
    | some value =>
        cases value with
        | hash entries =>
            rw [fieldNumber_hash] at number
            exact addToField_of_fits number fits
        | _ => cases number
  refused old beyond := by
    rw [hIncrBy_eq]
    cases old with
    | none => exact @addToField_refused field increment [] beyond
    | some value =>
        cases value with
        | hash entries =>
            refine addToField_refused fun n number => beyond n ?_
            rw [fieldNumber_hash, number]
        | _ => exact ⟨.invalidType, rfl⟩

section

variable {γ : Type} (geo : GeoIndex γ)

/-- The outcome of a call that adds to a number: the exact sum where it fits, and otherwise an
error that leaves the store. -/
structure ExactReply (sum : Option Int) (before : InMemoryStore γ)
    (reply : Outcome × InMemoryStore γ) : Prop where
  exact : ∀ total ∈ sum, FitsI64 total → ∃ n : Int64, n.toInt = total ∧ reply.1 = .ok (.int n)
  refused : (∀ total ∈ sum, ¬ FitsI64 total) → (∃ e, reply.1 = .err e) ∧ reply.2 = before

def Outcome.isOk : Outcome → Bool
  | .ok _ => true
  | _ => false

def countOnce (key : Str) (call : CounterCall) (s : InMemoryStore γ) :
    Outcome × InMemoryStore γ :=
  execute (InMemoryStore.storage geo) (call.command key) s

def countField (key field : Str) (increment : Int64) (s : InMemoryStore γ) :
    Outcome × InMemoryStore γ :=
  execute (InMemoryStore.storage geo) (.hIncrBy key field increment) s

variable {geo} {s : InMemoryStore γ} {number : Option Value → Option Int}

theorem AddsExactly.reply {f : KeyCommand} {amount : Int} (adds : AddsExactly number amount f)
    (key : Str) (s : InMemoryStore γ) :
    ExactReply ((number (Assoc.get s.data key.bytes)).map (· + amount)) s
      (onKey (InMemoryStore.storage geo) key f s) where
  exact total member fits := by
    obtain ⟨n, here, rfl⟩ := Option.map_eq_some_iff.mp member
    obtain ⟨total, value, exact, ran, -⟩ := adds.fits _ n here fits
    rw [onKey_eq, ran]
    exact ⟨total, exact, rfl⟩
  refused beyond := by
    obtain ⟨e, failed⟩ := adds.refused (Assoc.get s.data key.bytes) fun n here =>
      beyond _ (Option.map_eq_some_iff.mpr ⟨n, here, rfl⟩)
    rw [onKey_eq, failed]
    exact ⟨⟨e, rfl⟩, rfl⟩

theorem counts_of_adds {ι : Type} {f : ι → KeyCommand} {amount : ι → Int}
    (adds : ∀ i, AddsExactly number (amount i) (f i)) (key : Str) :
    Counts (fun i => onKey (InMemoryStore.storage geo) key (f i)) amount Outcome.isOk FitsI64
      fun s => number (Assoc.get s.data key.bytes) where
  accepted i s n here fits := by
    obtain ⟨total, value, -, ran, next⟩ := (adds i).fits _ n here fits
    rw [onKey_eq, ran]
    refine ⟨rfl, ?_⟩
    dsimp only
    rw [Assoc.get_insert, if_pos rfl, next]
  refused i s beyond := by
    obtain ⟨e, failed⟩ := (adds i).refused _ beyond
    rw [onKey_eq, failed]
    exact ⟨rfl, rfl⟩

/-- One more call after a run: its sum is the number at the start, what was accepted, and its
amount. -/
theorem exactReply_after {ι : Type} {f : ι → KeyCommand} {amount : ι → Int}
    (adds : ∀ i, AddsExactly number (amount i) (f i)) (key : Str) (calls : List ι) (i : ι)
    (s : InMemoryStore γ) {run : List (ι × Outcome) × InMemoryStore γ}
    (ran : run = results (fun i => onKey (InMemoryStore.storage geo) key (f i)) calls s) :
    ExactReply ((number (Assoc.get s.data key.bytes)).map
        (· + taken amount Outcome.isOk run.1 + amount i)) run.2
      (onKey (InMemoryStore.storage geo) key (f i) run.2) := by
  have total := (@counts_of_adds _ geo _ _ _ _ adds key).view_results calls s
  have reply := @AddsExactly.reply _ geo _ _ _ (adds i) key run.2
  rw [ran] at reply ⊢
  rw [total, Option.map_map] at reply
  exact reply

theorem countOnce_eq (key : Str) :
    countOnce geo key = fun call => onKey (InMemoryStore.storage geo) key (count call.next) := by
  funext call s
  cases call <;> rfl

/-- Every counter call after any others is exact, and so is every call that counts in a field. -/
theorem counters_exact (geo : GeoIndex γ) (key field : Str) (s : InMemoryStore γ) :
    (∀ (calls : List CounterCall) (call : CounterCall),
      let run := results (countOnce geo key) calls s
      ExactReply ((counterNumber (Assoc.get s.data key.bytes)).map
          (· + taken CounterCall.amount Outcome.isOk run.1 + call.amount)) run.2
        (countOnce geo key call run.2)) ∧
    ∀ (increments : List Int64) (increment : Int64),
      let run := results (countField geo key field) increments s
      ExactReply ((fieldNumber field.bytes (Assoc.get s.data key.bytes)).map
          (· + taken Int64.toInt Outcome.isOk run.1 + increment.toInt)) run.2
        (countField geo key field increment run.2) := by
  constructor
  · intro calls call
    rw [countOnce_eq]
    exact exactReply_after count_adds key calls call s rfl
  · intro increments increment
    exact @exactReply_after _ geo _ _ _ _ (hIncrBy_adds field) key increments increment s _ rfl

end

end Zumic.Commands
