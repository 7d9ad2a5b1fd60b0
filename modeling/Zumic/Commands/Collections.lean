/- The commands that fill and drain collections (`list.rs`, `hash.rs`, `memory.rs`): which of them
leave a key with nothing in it. -/

import Zumic.Commands.Failures
import Zumic.Lib.Runs

namespace Zumic.Commands

open Database Engine Lib Lib.Runs Lib.Utf8

/-- A list, a hash or a set without an element. -/
def Hollow : Value → Prop
  | .list items => items = []
  | .hash entries => entries = []
  | .set members => members = []
  | _ => False

def Change.Hollows : Change → Prop
  | .put value => Hollow value
  | _ => False

/-- The calls that fill and drain collections; those on sets are the calls of the store, which the
commands make with one member. -/
inductive Operation where
  | lPush (key value : Str)
  | rPush (key value : Str)
  | lPop (key : Str)
  | rPop (key : Str)
  | hSet (key : Str) (entry : Str × Str) (entries : List (Str × Str))
  | hDel (key : Str) (fields : List Str)
  | sAdd (key member : Sds) (members : List Sds)
  | sRem (key : Sds) (members : List Sds)
  | sPop (key : Sds) (count : Int64)

section

variable {γ : Type} (geo : GeoIndex γ)

def Operation.run (s : InMemoryStore γ) : Operation → InMemoryStore γ
  | .lPush key value => (execute (InMemoryStore.storage geo) (.lPush key value) s).2
  | .rPush key value => (execute (InMemoryStore.storage geo) (.rPush key value) s).2
  | .lPop key => (execute (InMemoryStore.storage geo) (.lPop key) s).2
  | .rPop key => (execute (InMemoryStore.storage geo) (.rPop key) s).2
  | .hSet key entry entries =>
      (execute (InMemoryStore.storage geo) (.hSet key (entry :: entries)) s).2
  | .hDel key fields => (execute (InMemoryStore.storage geo) (.hDel key fields) s).2
  | .sAdd key member members => ((InMemoryStore.storage geo).sadd key (member :: members) s).2
  | .sRem key members => ((InMemoryStore.storage geo).srem key members s).2
  | .sPop key count => ((InMemoryStore.storage geo).spop key count s).2

/-- Every key with a collection has an element in it. -/
def Filled (s : InMemoryStore γ) : Prop :=
  ∀ key v, Assoc.get s.data key = some v → ¬ Hollow v

/-- A pop of the only element of a list. -/
def PopsLast (s : InMemoryStore γ) : Operation → Prop
  | .lPop key => ∃ item, Assoc.get s.data key.bytes = some (.list [item])
  | .rPop key => ∃ item, Assoc.get s.data key.bytes = some (.list [item])
  | _ => False

variable {geo} {s : InMemoryStore γ}

theorem filled_insert_iff (filled : Filled s) (key : Sds) (v : Value) :
    Filled { s with data := Assoc.insert s.data key v } ↔ ¬ Hollow v := by
  constructor
  · intro after
    refine after key v ?_
    rw [Assoc.get_insert, if_pos rfl]
  · intro full key' v' read
    dsimp only at read
    rw [Assoc.get_insert] at read
    split at read
    · obtain rfl := Option.some.inj read
      exact full
    · exact filled key' v' read

theorem filled_erase (filled : Filled s) (key : Sds) :
    Filled { s with data := Assoc.erase s.data key } := by
  intro key' v read
  dsimp only at read
  rw [Assoc.get_erase] at read
  split at read
  · cases read
  · exact filled key' v read

theorem filled_onKey_iff (geo : GeoIndex γ) (filled : Filled s) (key : Str) (f : KeyCommand) :
    Filled (onKey (InMemoryStore.storage geo) key f s).2 ↔
      ¬ (f (Assoc.get s.data key.bytes)).2.Hollows := by
  rw [onKey_eq]
  dsimp only
  cases (f (Assoc.get s.data key.bytes)).2 with
  | keep => exact ⟨fun _ => id, fun _ => filled⟩
  | put v => exact filled_insert_iff filled key.bytes v
  | del => exact ⟨fun _ => id, fun _ => filled_erase filled key.bytes⟩

theorem filled_keep (filled : Filled s) (key : Sds) (members : List Sds) :
    Filled (s.keep key members) := by
  unfold InMemoryStore.keep
  split
  · exact filled_erase filled key
  · rename_i some
    exact (filled_insert_iff filled key (.set members)).mpr some

end

theorem push_fills {write : List Sds → List Sds} (fills : ∀ items, write items ≠ [])
    (old : Option Value) : ¬ (push write old).2.Hollows := by
  unfold push typed
  cases old with
  | none => exact fills []
  | some v =>
      dsimp only
      cases asList v with
      | none => exact id
      | some items => exact fills items

theorem pop_hollows_iff {take : List Sds → Option Sds} {rest : List Sds → List Sds}
    (takes : ∀ items, take items = none ↔ items = [])
    (last : ∀ items, items ≠ [] → (rest items = [] ↔ ∃ item, items = [item]))
    (old : Option Value) :
    (pop take rest old).2.Hollows ↔ ∃ item, old = some (.list [item]) := by
  unfold pop typed
  cases old with
  | none =>
      constructor
      · intro hollow
        cases hollow
      · rintro ⟨item, same⟩
        cases same
  | some v =>
      dsimp only
      cases listed : asList v with
      | none =>
          constructor
          · intro hollow
            cases hollow
          · rintro ⟨item, same⟩
            obtain rfl := Option.some.inj same
            cases listed
      | some items =>
          have value : v = .list items := by
            cases v <;> cases listed
            rfl
          subst value
          dsimp only
          cases taken : take items with
          | none =>
              obtain rfl := (takes items).mp taken
              constructor
              · intro hollow
                cases hollow
              · rintro ⟨item, same⟩
                cases same
          | some item =>
              have some : items ≠ [] := by
                intro empty
                rw [(takes items).mpr empty] at taken
                cases taken
              refine (last items some).trans ?_
              constructor
              · rintro ⟨item, rfl⟩
                exact ⟨item, rfl⟩
              · rintro ⟨item, same⟩
                cases same
                exact ⟨item, rfl⟩

theorem insert_ne_nil {κ α : Type} [DecidableEq κ] (m : List (κ × α)) (k : κ) (v : α) :
    Assoc.insert m k v ≠ [] := by
  intro empty
  have read := Assoc.get_insert m k k v
  rw [empty, if_pos rfl] at read
  cases read

theorem insertFields_ne_nil (entries : List (Sds × Sds)) (field : Str × Str)
    (fields : List (Str × Str)) : (insertFields entries (field :: fields)).1 ≠ [] := by
  have kept (r : List (Sds × Sds) × Nat) (some : r.1 ≠ []) : (fields.foldl (fun r e =>
      (Assoc.insert r.1 e.1.bytes e.2.bytes,
        if (Assoc.get r.1 e.1.bytes).isSome then r.2 else r.2 + 1)) r).1 ≠ [] := by
    induction fields generalizing r with
    | nil => exact some
    | cons e fields ih => exact ih _ (insert_ne_nil _ _ _)
  exact kept _ (insert_ne_nil _ _ _)

theorem hSet_fills (field : Str × Str) (fields : List (Str × Str)) (old : Option Value) :
    ¬ (hSet (field :: fields) old).2.Hollows := by
  unfold hSet typed
  cases old with
  | none => exact insertFields_ne_nil [] field fields
  | some v =>
      dsimp only
      cases asHash v with
      | none => exact id
      | some entries => exact insertFields_ne_nil entries field fields

theorem hDel_fills (fields : List Str) (old : Option Value) : ¬ (hDel fields old).2.Hollows := by
  unfold hDel typed
  cases old with
  | none => exact id
  | some v =>
      dsimp only
      cases asHash v with
      | none => exact id
      | some entries =>
          dsimp only
          split
          · exact id
          · rename_i some
            exact some

section

variable {γ : Type} {geo : GeoIndex γ} {s : InMemoryStore γ}

theorem sAdd_fills (filled : Filled s) (key member : Sds) (members : List Sds) :
    Filled ((Operation.sAdd key member members).run geo s) := by
  change Filled (InMemoryStore.sadd key (member :: members) s).2
  unfold InMemoryStore.sadd
  cases s.members "SADD" key with
  | error e => exact filled
  | ok old =>
      refine (filled_insert_iff filled key _).mpr fun empty => ?_
      have added : member ∈ (addMembers old (member :: members)).1 :=
        mem_addMembers (Or.inr List.mem_cons_self)
      rw [show (addMembers old (member :: members)).1 = [] from empty] at added
      cases added

theorem sRem_fills (filled : Filled s) (key : Sds) (members : List Sds) :
    Filled ((Operation.sRem key members).run geo s) := by
  change Filled (InMemoryStore.srem key members s).2
  unfold InMemoryStore.srem
  cases s.members "SREM" key with
  | error e => exact filled
  | ok old => exact filled_keep filled key _

theorem sPop_fills (filled : Filled s) (key : Sds) (count : Int64) :
    Filled ((Operation.sPop key count).run geo s) := by
  change Filled (InMemoryStore.spop key count s).2
  unfold InMemoryStore.spop
  cases s.members "SPOP" key with
  | error e => exact filled
  | ok old =>
      refine filled_keep ?_ key _
      exact filled

theorem sAdd_run (key member : Str) :
    (execute (InMemoryStore.storage geo) (.sAdd key member) s).2 =
      (Operation.sAdd key.bytes member.bytes []).run geo s := by
  change (sAdd _ key member s).2 = ((InMemoryStore.storage geo).sadd key.bytes [member.bytes] s).2
  unfold sAdd
  generalize (InMemoryStore.storage geo).sadd key.bytes [member.bytes] s = answer
  obtain ⟨r, s'⟩ := answer
  cases r <;> rfl

theorem sRem_run (key member : Str) :
    (execute (InMemoryStore.storage geo) (.sRem key member) s).2 =
      (Operation.sRem key.bytes [member.bytes]).run geo s := by
  change (sRem _ key member s).2 = ((InMemoryStore.storage geo).srem key.bytes [member.bytes] s).2
  unfold sRem
  generalize (InMemoryStore.storage geo).srem key.bytes [member.bytes] s = answer
  obtain ⟨r, s'⟩ := answer
  cases r <;> rfl

theorem popMembers_nil (n : Nat) (rng : Rng) : popMembers n [] rng = ([], [], rng) := by
  cases n <;> rfl

/-- Where the command does not call the store, the call would change nothing. -/
theorem sPop_run (key : Str) (count : Int64) :
    (execute (InMemoryStore.storage geo) (.sPop key count) s).2 =
      (Operation.sPop key.bytes count).run geo s := by
  change (sPop _ key count s).2 = ((InMemoryStore.storage geo).spop key.bytes count s).2
  have read : (InMemoryStore.storage geo).get key.bytes s = .ok (Assoc.get s.data key.bytes) := rfl
  unfold sPop
  rw [read]
  cases old : Assoc.get s.data key.bytes with
  | none =>
      have gone : Assoc.erase s.data key.bytes = s.data :=
        Assoc.erase_of_not_mem (Assoc.get_eq_none_iff.mp old)
      change s = (InMemoryStore.spop key.bytes count s).2
      unfold InMemoryStore.spop InMemoryStore.members
      rw [old]
      dsimp only
      rw [popMembers_nil]
      dsimp only
      rw [InMemoryStore.keep, if_pos rfl, gone]
  | some v =>
      cases v with
      | null =>
          change s = (InMemoryStore.spop key.bytes count s).2
          unfold InMemoryStore.spop InMemoryStore.members
          rw [old]
      | _ =>
          dsimp only
          generalize (InMemoryStore.storage geo).spop key.bytes count s = answer
          obtain ⟨r, s'⟩ := answer
          cases r <;> rfl

/-- Only a pop of the last element of a list leaves a key without an element. -/
theorem filled_run_iff (filled : Filled s) (op : Operation) :
    Filled (op.run geo s) ↔ ¬ PopsLast s op := by
  cases op with
  | lPush key value =>
      have filling := push_fills (fun items => List.cons_ne_nil value.bytes items)
      exact iff_of_true ((filled_onKey_iff geo filled key _).mpr (filling _)) id
  | rPush key value =>
      have filling := push_fills (fun items => List.concat_ne_nil value.bytes items)
      exact iff_of_true ((filled_onKey_iff geo filled key _).mpr (filling _)) id
  | lPop key =>
      refine (filled_onKey_iff geo filled key lPop).trans (not_congr ?_)
      refine pop_hollows_iff (fun items => List.head?_eq_none_iff) (fun items some => ?_) _
      cases items with
      | nil => exact absurd rfl some
      | cons item items => simp
  | rPop key =>
      refine (filled_onKey_iff geo filled key rPop).trans (not_congr ?_)
      refine pop_hollows_iff (fun items => List.getLast?_eq_none_iff) (fun items some => ?_) _
      cases items with
      | nil => exact absurd rfl some
      | cons item items => cases items <;> simp
  | hSet key entry entries =>
      exact iff_of_true ((filled_onKey_iff geo filled key _).mpr (hSet_fills entry entries _)) id
  | hDel key fields =>
      exact iff_of_true ((filled_onKey_iff geo filled key _).mpr (hDel_fills fields _)) id
  | sAdd key member members => exact iff_of_true (sAdd_fills filled key member members) id
  | sRem key members => exact iff_of_true (sRem_fills filled key members) id
  | sPop key count => exact iff_of_true (sPop_fills filled key count) id

/-- The calls always return. -/
def Operation.step (geo : GeoIndex γ) (s : InMemoryStore γ) (op : Operation) :
    Option (InMemoryStore γ) := some (op.run geo s)

/-- Every state of a run from the empty store has an element under each of its collections exactly
when no pop of the run takes the last element of a list. -/
theorem collections_vanish_iff (geo : GeoIndex γ) (index : γ) (rng : Rng)
    (ops : List Operation) :
    (∀ n s, run (Operation.step geo) (InMemoryStore.new index rng) (ops.take n) = some s →
        Filled s) ↔
      Along (Operation.step geo) (fun s op => ¬ PopsLast s op) (InMemoryStore.new index rng)
        ops := by
  have start : Filled (InMemoryStore.new index rng) := by
    intro key v read
    cases read
  have afterwards (s : InMemoryStore γ) (op : Operation) (filled : Filled s) :
      (∀ s' ∈ op.step geo s, Filled s') ↔ ¬ PopsLast s op := by
    rw [← @filled_run_iff _ geo _ filled op]
    constructor
    · intro after
      exact after _ rfl
    · intro after s' stepped
      obtain rfl := Option.some.inj stepped
      exact after
  rw [always_iff_along, and_iff_right start]
  refine along_congr_of_kept ?_ afterwards start
  intro s op s' filled after stepped
  exact after s' stepped

/-- A list of one element, popped. -/
theorem emptied_list_stays : ¬ ∀ (ops : List Operation) (n : Nat) (s : InMemoryStore Unit),
    run (Operation.step GeoIndex.empty) (InMemoryStore.new () fun _ => 0) (ops.take n) = some s →
      Filled s := by
  intro vanish
  let key : Str := Str.lit "k"
  let ops : List Operation := [.lPush key (Str.lit "v"), .lPop key]
  have filled := vanish ops 2 _ rfl
  exact filled key.bytes (.list []) rfl rfl

end

end Zumic.Commands
