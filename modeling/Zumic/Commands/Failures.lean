/- Failed commands: which types a command refuses, and what a refusal leaves behind. -/

import Zumic.Commands.Execute

namespace Zumic.Commands

open Database Engine Lib Lib.ByteString Lib.Utf8

/-- The keys whose values a command works with. The destination of `BITOP` is only written. -/
def Command.operands : Command → List Str
  | .append key _ | .getRange key _ _ | .strLen key => [key]
  | .incr key | .incrBy key _ | .decr key | .decrBy key _ => [key]
  | .lPush key _ | .rPush key _ | .lPop key | .rPop key | .lRange key _ _ => [key]
  | .hSet key _ | .hDel key _ | .hIncrBy key _ _ => [key]
  | .sAdd key _ | .sRem key _ | .sPop key _ => [key]
  | .setBit key _ _ => [key]
  | .bitOp _ _ keys => keys

/-- The counters read decimal strings as well. -/
def isCounter : Value → Bool
  | .int _ | .str _ => true
  | _ => false

def isSet : Value → Bool
  | .set _ => true
  | _ => false

/-- `SPOP` takes a null for a missing set. -/
def isPoppable : Value → Bool
  | .set _ | .null => true
  | _ => false

/-- Whether a value has a type that a command works on. -/
def Command.worksOn : Command → Value → Bool
  | .append _ _ | .getRange _ _ _ | .strLen _ => fun v => (asStr v).isSome
  | .incr _ | .incrBy _ _ | .decr _ | .decrBy _ _ => isCounter
  | .lPush _ _ | .rPush _ _ | .lPop _ | .rPop _ | .lRange _ _ _ => fun v => (asList v).isSome
  | .hSet _ _ | .hDel _ _ | .hIncrBy _ _ _ => fun v => (asHash v).isSome
  | .sAdd _ _ | .sRem _ _ => isSet
  | .sPop _ _ => isPoppable
  | .setBit _ _ _ | .bitOp _ _ _ => fun v => (asBitmap v).isSome

/-- A command that refuses the values of other types, and that writes nothing when it fails. -/
structure Guarded (works : Value → Bool) (f : KeyCommand) : Prop where
  refuses : ∀ v, works v = false → ∃ e, (f (some v)).1 = .err e
  harmless : ∀ old e, (f old).1 = .err e → (f old).2 = .keep

theorem typed_guarded {α : Type} {part : Value → Option α} {missing : Outcome × Change}
    {f : α → Outcome × Change} (absent : ∀ e, missing.1 = .err e → missing.2 = .keep)
    (present : ∀ a e, (f a).1 = .err e → (f a).2 = .keep) :
    Guarded (fun v => (part v).isSome) (typed part missing f) where
  refuses v other := by
    have none : part v = none := by simpa using other
    refine ⟨.invalidType, ?_⟩
    rw [typed, none]
  harmless old e failed := by
    cases old with
    | none => exact absent e failed
    | some v =>
        rw [typed] at failed ⊢
        cases read : part v with
        | none => rfl
        | some a =>
            rw [read] at failed
            exact present a e failed

theorem strLen_guarded : Guarded (fun v => (asStr v).isSome) strLen :=
  typed_guarded (fun _ _ => rfl) fun _ _ _ => rfl

theorem append_guarded (value : Str) : Guarded (fun v => (asStr v).isSome) (append value) :=
  typed_guarded (fun _ failed => by cases failed) fun _ _ failed => by cases failed

theorem getRange_guarded (start stop : Int64) :
    Guarded (fun v => (asStr v).isSome) (getRange start stop) := by
  apply typed_guarded (fun _ _ => rfl)
  intro b e _
  cases Str.fromUtf8 b <;> rfl

theorem count_guarded (next : Int64 → Option Int64) :
    Guarded isCounter (count next) where
  refuses v other := by
    refine ⟨.invalidType, ?_⟩
    cases v <;> first | rfl | cases other
  harmless old e failed := by
    rw [count] at failed ⊢
    split
    · rfl
    · rename_i current _
      cases step : next current with
      | none => rfl
      | some n => simp_all

theorem push_guarded (write : List Sds → List Sds) :
    Guarded (fun v => (asList v).isSome) (push write) :=
  typed_guarded (fun _ failed => by cases failed) fun _ _ failed => by cases failed

theorem pop_guarded (take : List Sds → Option Sds) (rest : List Sds → List Sds) :
    Guarded (fun v => (asList v).isSome) (pop take rest) := by
  apply typed_guarded (fun _ _ => rfl)
  intro items e failed
  cases taken : take items with
  | none => rfl
  | some item =>
      rw [taken] at failed
      cases failed

theorem lRange_guarded (start stop : Int64) :
    Guarded (fun v => (asList v).isSome) (lRange start stop) :=
  typed_guarded (fun _ _ => rfl) fun _ _ _ => rfl

theorem hSet_guarded (fields : List (Str × Str)) :
    Guarded (fun v => (asHash v).isSome) (hSet fields) :=
  typed_guarded (fun _ failed => by cases failed) fun _ _ failed => by cases failed

theorem hDel_guarded (fields : List Str) : Guarded (fun v => (asHash v).isSome) (hDel fields) :=
  typed_guarded (fun _ _ => rfl) fun _ _ failed => by cases failed

theorem hIncrBy_guarded (field : Str) (increment : Int64) :
    Guarded (fun v => (asHash v).isSome) (hIncrBy field increment) := by
  have write (entries : List (Sds × Sds)) (e : StoreError)
      (failed : (hIncrBy field increment (some (.hash entries))).1 = .err e) :
      (hIncrBy field increment (some (.hash entries))).2 = .keep := by
    simp only [hIncrBy, typed, asHash] at failed ⊢
    split
    · rfl
    · rename_i current _
      cases step : checkedAdd current increment with
      | none => rfl
      | some n => simp_all
  exact typed_guarded (write []) write

section

variable {γ : Type} (geo : GeoIndex γ)

/-- A command refuses its keys when they hold other types, and a refusal changes nothing. -/
structure FailsCleanly (c : Command) (s : InMemoryStore γ) : Prop where
  refuses : ∀ key ∈ c.operands, ∀ v, Assoc.get s.data key.bytes = some v → c.worksOn v = false →
    ∃ e, (execute (InMemoryStore.storage geo) c s).1 = .err e
  harmless : ∀ e, (execute (InMemoryStore.storage geo) c s).1 = .err e →
    (execute (InMemoryStore.storage geo) c s).2 = s

/-- The operations of `BITOP`. -/
def operations : List Str := [Str.lit "NOT", Str.lit "AND", Str.lit "OR", Str.lit "XOR"]

/-- `SETBIT` over a value that is no bitmap, or an operation of `BITOP` with one among its
sources. -/
def Mistakes (s : InMemoryStore γ) : Command → Prop
  | .setBit key _ _ => ∃ v, Assoc.get s.data key.bytes = some v ∧ asBitmap v = none
  | .bitOp op _ keys =>
      op ∈ operations ∧ ∃ key ∈ keys, ∃ v, Assoc.get s.data key.bytes = some v ∧ asBitmap v = none
  | _ => False

variable {geo} {s : InMemoryStore γ}

theorem onKey_eq (key : Str) (f : KeyCommand) :
    onKey (InMemoryStore.storage geo) key f s =
      ((f (Assoc.get s.data key.bytes)).1,
        match (f (Assoc.get s.data key.bytes)).2 with
        | .keep => s
        | .put value => { s with data := Assoc.insert s.data key.bytes value }
        | .del => { s with data := Assoc.erase s.data key.bytes }) := by
  have read : (InMemoryStore.storage geo).get key.bytes s = .ok (Assoc.get s.data key.bytes) := rfl
  rw [onKey, read]
  dsimp only
  generalize f (Assoc.get s.data key.bytes) = answer
  obtain ⟨r, change⟩ := answer
  cases change <;> rfl

theorem failsCleanly_of_guarded {c : Command} {key : Str} {f : KeyCommand}
    (runs : execute (InMemoryStore.storage geo) c s = onKey (InMemoryStore.storage geo) key f s)
    (operand : c.operands = [key]) (guarded : Guarded c.worksOn f) : FailsCleanly geo c s where
  refuses key' member v read other := by
    rw [operand] at member
    obtain rfl := List.mem_singleton.mp member
    rw [runs, onKey_eq, read]
    exact guarded.refuses v other
  harmless e failed := by
    rw [runs, onKey_eq] at failed ⊢
    rw [guarded.harmless _ e failed]

theorem members_refused {key : Sds} {v : Value} (command : String)
    (read : Assoc.get s.data key = some v) (other : isSet v = false) :
    s.members command key = .error (.wrongType (Str.lit (command ++ ": key is not a set"))) := by
  rw [InMemoryStore.members, read]
  cases v <;> first | rfl | cases other

theorem sAdd_failsCleanly (key member : Str) : FailsCleanly geo (.sAdd key member) s where
  refuses key' listed v read other := by
    obtain rfl := List.mem_singleton.mp listed
    refine ⟨.wrongType (Str.lit "SADD: key is not a set"), ?_⟩
    simp only [execute, sAdd, InMemoryStore.storage, InMemoryStore.sadd,
      members_refused "SADD" read other]
    rfl
  harmless e failed := by
    simp only [execute, sAdd, InMemoryStore.storage, InMemoryStore.sadd] at failed ⊢
    cases read : s.members "SADD" key.bytes with
    | error e' => rfl
    | ok members =>
        rw [read] at failed
        cases failed

theorem sRem_failsCleanly (key member : Str) : FailsCleanly geo (.sRem key member) s where
  refuses key' listed v read other := by
    obtain rfl := List.mem_singleton.mp listed
    refine ⟨.wrongType (Str.lit "SREM: key is not a set"), ?_⟩
    simp only [execute, sRem, InMemoryStore.storage, InMemoryStore.srem,
      members_refused "SREM" read other]
    rfl
  harmless e failed := by
    simp only [execute, sRem, InMemoryStore.storage, InMemoryStore.srem] at failed ⊢
    cases read : s.members "SREM" key.bytes with
    | error e' => rfl
    | ok members =>
        rw [read] at failed
        cases failed

theorem sPop_eq (key : Str) (count : Int64) :
    execute (InMemoryStore.storage geo) (.sPop key count) s =
      match Assoc.get s.data key.bytes with
      | none => (.ok .null, s)
      | some .null => (.ok .null, s)
      | some _ =>
          match InMemoryStore.spop key.bytes count s with
          | (.ok removed, s) => (.ok (if removed = [] then .null else .list removed), s)
          | (.error e, s) => (.err e, s) := by
  have pops : (InMemoryStore.storage geo).spop key.bytes count s =
      InMemoryStore.spop key.bytes count s := rfl
  have read : (InMemoryStore.storage geo).get key.bytes s = .ok (Assoc.get s.data key.bytes) := rfl
  rw [execute, sPop, read, pops]
  generalize InMemoryStore.spop key.bytes count s = popped
  obtain ⟨r, t⟩ := popped
  cases Assoc.get s.data key.bytes with
  | none => rfl
  | some v => cases v <;> cases r <;> rfl

theorem sPop_failsCleanly (key : Str) (count : Int64) : FailsCleanly geo (.sPop key count) s where
  refuses key' listed v read other := by
    obtain rfl := List.mem_singleton.mp listed
    have noSet : isSet v = false := by cases v <;> first | rfl | cases other
    have refused : InMemoryStore.spop key'.bytes count s =
        (.error (.wrongType (Str.lit "SPOP: key is not a set")), s) := by
      rw [InMemoryStore.spop, members_refused "SPOP" read noSet]
      rfl
    refine ⟨.wrongType (Str.lit "SPOP: key is not a set"), ?_⟩
    rw [sPop_eq, read, refused]
    cases v <;> first | rfl | cases other
  harmless e failed := by
    have clean : ∀ r t, InMemoryStore.spop key.bytes count s = (r, t) → ∀ e, r = .error e → t = s := by
      intro r t popped e refused
      rw [InMemoryStore.spop] at popped
      cases read : s.members "SPOP" key.bytes with
      | error e' =>
          rw [read] at popped
          exact (Prod.mk.inj popped).2.symm
      | ok members =>
          rw [read] at popped
          obtain rfl := (Prod.mk.inj popped).1
          cases refused
    rw [sPop_eq] at failed ⊢
    split at failed
    · cases failed
    · cases failed
    · rename_i read
      split at failed
      · cases failed
      · rename_i e' t popped
        exact clean _ _ popped e' rfl

/-- `SETBIT` never fails, so it works without a mistake only when it has no reason to. -/
theorem setBit_failsCleanly_iff (key : Str) (offset : Nat) (value : Bool) :
    FailsCleanly geo (.setBit key offset value) s ↔ ¬ Mistakes s (.setBit key offset value) := by
  have succeeds : ∀ e, (execute (InMemoryStore.storage geo) (.setBit key offset value) s).1 ≠
      .err e := by
    intro e failed
    rw [execute, onKey_eq] at failed
    cases failed
  constructor
  · rintro clean ⟨v, read, other⟩
    have unfit : (Command.setBit key offset value).worksOn v = false := by
      simp [Command.worksOn, other]
    obtain ⟨e, failed⟩ := clean.refuses key (List.mem_singleton_self key) v read unfit
    exact succeeds e failed
  · intro careful
    refine ⟨?_, fun e failed => absurd failed (succeeds e)⟩
    intro key' listed v read other
    obtain rfl := List.mem_singleton.mp listed
    have unfit : asBitmap v = none := by simpa [Command.worksOn] using other
    exact absurd ⟨v, read, unfit⟩ careful

theorem bitmapsOf_eq (keys : List Str) :
    bitmapsOf (InMemoryStore.storage geo) s keys =
      .ok (keys.flatMap fun key => ((Assoc.get s.data key.bytes).bind asBitmap).toList) := by
  induction keys with
  | nil => rfl
  | cons key keys ih =>
      have read : (InMemoryStore.storage geo).get key.bytes s =
          .ok (Assoc.get s.data key.bytes) := rfl
      rw [bitmapsOf, read, ih]
      rfl

theorem combine_eq_none_iff (op : Str) (bitmaps : List Bytes) :
    combine op bitmaps = none ↔ op ∉ operations := by
  rw [combine]
  simp only [operations, List.mem_cons, List.not_mem_nil, or_false, not_or]
  split
  · simp_all
  · split
    · simp_all
    · split
      · simp_all
      · split <;> simp_all

/-- `BITOP` fails before it has written anything, and only for want of an operation. -/
theorem bitOp_failsCleanly_iff (op dest : Str) (keys : List Str) :
    FailsCleanly geo (.bitOp op dest keys) s ↔ ¬ Mistakes s (.bitOp op dest keys) := by
  constructor
  · rintro clean ⟨known, key, listed, v, read, other⟩
    have unfit : (Command.bitOp op dest keys).worksOn v = false := by
      simp [Command.worksOn, other]
    obtain ⟨e, failed⟩ := clean.refuses key listed v read unfit
    rw [execute, bitOp, bitmapsOf_eq] at failed
    dsimp only at failed
    split at failed
    · rename_i unknown
      exact (combine_eq_none_iff op _).mp unknown known
    · cases failed
  · intro careful
    by_cases known : op ∈ operations
    · refine ⟨?_, ?_⟩
      · intro key listed v read other
        have unfit : asBitmap v = none := by simpa [Command.worksOn] using other
        exact absurd ⟨known, key, listed, v, read, unfit⟩ careful
      · intro e failed
        rw [execute, bitOp, bitmapsOf_eq] at failed
        dsimp only at failed
        split at failed
        · rename_i unknown
          exact absurd known ((combine_eq_none_iff op _).mp unknown)
        · cases failed
    · have unknown (bitmaps : List Bytes) := (combine_eq_none_iff op bitmaps).mpr known
      have refused : execute (InMemoryStore.storage geo) (.bitOp op dest keys) s =
          (.err (.syntaxError (Str.lit "Unknown BITOP `" ++ op ++ Str.lit "`")), s) := by
        rw [execute, bitOp, bitmapsOf_eq]
        dsimp only
        rw [unknown]
      exact ⟨fun _ _ _ _ _ => ⟨_, congrArg Prod.fst refused⟩, fun _ _ => congrArg Prod.snd refused⟩

/-- A failed command changes nothing and every mistyped key makes a command fail, but for the two
commands that take a value of another type for a missing bitmap. -/
theorem failsCleanly_iff (geo : GeoIndex γ) (s : InMemoryStore γ) (c : Command) :
    FailsCleanly geo c s ↔ ¬ Mistakes s c := by
  cases c with
  | append key value =>
      exact iff_of_true (failsCleanly_of_guarded rfl rfl (append_guarded value)) id
  | getRange key start stop =>
      exact iff_of_true (failsCleanly_of_guarded rfl rfl (getRange_guarded start stop)) id
  | strLen key => exact iff_of_true (failsCleanly_of_guarded rfl rfl strLen_guarded) id
  | incr key => exact iff_of_true (failsCleanly_of_guarded rfl rfl (count_guarded _)) id
  | incrBy key increment => exact iff_of_true (failsCleanly_of_guarded rfl rfl (count_guarded _)) id
  | decr key => exact iff_of_true (failsCleanly_of_guarded rfl rfl (count_guarded _)) id
  | decrBy key decrement => exact iff_of_true (failsCleanly_of_guarded rfl rfl (count_guarded _)) id
  | lPush key value => exact iff_of_true (failsCleanly_of_guarded rfl rfl (push_guarded _)) id
  | rPush key value => exact iff_of_true (failsCleanly_of_guarded rfl rfl (push_guarded _)) id
  | lPop key => exact iff_of_true (failsCleanly_of_guarded rfl rfl (pop_guarded _ _)) id
  | rPop key => exact iff_of_true (failsCleanly_of_guarded rfl rfl (pop_guarded _ _)) id
  | lRange key start stop =>
      exact iff_of_true (failsCleanly_of_guarded rfl rfl (lRange_guarded start stop)) id
  | hSet key entries => exact iff_of_true (failsCleanly_of_guarded rfl rfl (hSet_guarded entries)) id
  | hDel key fields => exact iff_of_true (failsCleanly_of_guarded rfl rfl (hDel_guarded fields)) id
  | hIncrBy key field increment =>
      exact iff_of_true (failsCleanly_of_guarded rfl rfl (hIncrBy_guarded field increment)) id
  | sAdd key member => exact iff_of_true (sAdd_failsCleanly key member) id
  | sRem key member => exact iff_of_true (sRem_failsCleanly key member) id
  | sPop key count => exact iff_of_true (sPop_failsCleanly key count) id
  | setBit key offset value => exact setBit_failsCleanly_iff key offset value
  | bitOp op dest keys => exact bitOp_failsCleanly_iff op dest keys

/-- A text that is lost to `SETBIT`. -/
theorem setBit_overwrites_text :
    let s : InMemoryStore Unit := ⟨[([107], .str [116, 101, 120, 116])], (), fun _ => 0⟩
    let after := execute (InMemoryStore.storage GeoIndex.empty) (.setBit (Str.lit "k") 7 true) s
    after.1 = .ok (.int 0) ∧ after.2.data = [([107], .bitmap [1])] ∧
      ¬ FailsCleanly GeoIndex.empty (.setBit (Str.lit "k") 7 true) s := by
  refine ⟨rfl, rfl, ?_⟩
  intro clean
  obtain ⟨e, failed⟩ := clean.refuses (Str.lit "k") (List.mem_singleton_self _) _ rfl rfl
  cases failed

end

end Zumic.Commands
