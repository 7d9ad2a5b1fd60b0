/- The storage interface (`storage.rs`), its errors (`system.rs`) and the set operations that its
implementations share. -/

import Zumic.Database.Value

namespace Zumic.Engine

open Database Lib Lib.Utf8

/-- The errors that the stores return. -/
inductive StoreError where
  | io (message : Str)
  | utf8 (message : Str)
  | wrongType (message : Str)
  | keyNotFound
  | serdeError (message : Str)
  | unsupportedOperation (message : Str)
  | invalidType
  | invalidValue
  | overflow
  | syntaxError (message : Str)
  | wrongShard
  deriving DecidableEq

def StoreError.toStr : StoreError → Str
  | .io m => Str.lit "IO error: " ++ m
  | .utf8 m => Str.lit "UTF-8 decoding failed: " ++ m
  | .wrongType m => Str.lit "Wrong type for operation: " ++ m
  | .keyNotFound => Str.lit "Key not found"
  | .serdeError m => Str.lit "Serialization or deserialization failed: " ++ m
  | .unsupportedOperation m => Str.lit "Unsupported operation: " ++ m
  | .invalidType => Str.lit "Invalid type"
  | .invalidValue => Str.lit "Invalid value"
  | .overflow => Str.lit "Overflow value"
  | .syntaxError m => Str.lit "Unknown BITOP: " ++ m
  | .wrongShard => Str.lit "Operation not allowed across shards (key slot mismatch)"

structure GeoPoint where
  lon : F64
  lat : F64
  deriving DecidableEq

/-- A call that may change the store: its result and the store after it. -/
abbrev StoreM (σ α : Type) := σ → Except StoreError α × σ

/-- A call that only reads the store. -/
abbrev StoreRead (σ α : Type) := σ → Except StoreError α

/-- The interface of the stores. -/
structure Storage (σ : Type) where
  set : Sds → Value → StoreM σ Unit
  get : Sds → StoreRead σ (Option Value)
  del : Sds → StoreM σ Bool
  mset : List (Sds × Value) → StoreM σ Unit
  mget : List Sds → StoreRead σ (List (Option Value))
  rename : Sds → Sds → StoreM σ Unit
  renamenx : Sds → Sds → StoreM σ Bool
  flushdb : StoreM σ Unit
  geoAdd : Sds → F64 → F64 → Sds → StoreM σ Bool
  geoDist : Sds → Sds → Sds → Str → StoreRead σ (Option F64)
  geoPos : Sds → Sds → StoreRead σ (Option GeoPoint)
  geoRadius : Sds → F64 → F64 → F64 → Str → StoreM σ (List (Str × F64 × GeoPoint))
  sadd : Sds → List Sds → StoreM σ Nat
  smembers : Sds → StoreRead σ (List Sds)
  scard : Sds → StoreRead σ Nat
  sismember : Sds → Sds → StoreRead σ Bool
  srem : Sds → List Sds → StoreM σ Nat
  srandmember : Sds → Int64 → StoreM σ (List Sds)
  spop : Sds → Int64 → StoreM σ (List Sds)

/-- Adds members to a hash set and counts those that are new. -/
def addMembers (set : List Sds) (members : List Sds) : List Sds × Nat :=
  members.foldl (fun r m => if m ∈ r.1 then r else (r.1 ++ [m], r.2 + 1)) (set, 0)

/-- Removes members from a hash set and counts those that were there. -/
def removeMembers (set : List Sds) (members : List Sds) : List Sds × Nat :=
  members.foldl (fun r m => if m ∈ r.1 then (r.1.erase m, r.2 + 1) else r) (set, 0)

/-- The random numbers to come. -/
abbrev Rng := Nat → Nat

def Rng.rest (rng : Rng) : Rng := fun n => rng (n + 1)

section

variable {α : Type}

/-- One item at random. -/
def choose (l : List α) (rng : Rng) : Option α × Rng :=
  if l = [] then (none, rng) else (l[rng 0 % l.length]?, rng.rest)

/-- The reservoir after the items beyond its size, of which `seen` are behind. -/
def refill (amount : Nat) : List α → Nat → List α → Rng → List α × Rng
  | reservoir, _, [], rng => (reservoir, rng)
  | reservoir, seen, x :: l, rng =>
      refill amount (reservoir.set (rng 0 % (seen + 1 + amount)) x) (seen + 1) l rng.rest

/-- At most `amount` items at random. -/
def chooseMultiple (l : List α) (amount : Nat) (rng : Rng) : List α × Rng :=
  refill amount (l.take amount) 0 (l.drop amount) rng

end

/-- Takes up to `count` random members out of a hash set. -/
def popMembers : Nat → List Sds → Rng → List Sds × List Sds × Rng
  | 0, set, rng => ([], set, rng)
  | count + 1, set, rng =>
      match choose set rng with
      | (some m, rng) =>
          let (out, set, rng) := popMembers count (set.erase m) rng
          (m :: out, set, rng)
      | (none, rng) => ([], set, rng)

def popCount (count : Int64) : Nat := if count.toInt ≤ 0 then 1 else count.toInt.toNat

/-- The answer of `srandmember` for a hash set. -/
def randomMembers (set : List Sds) (count : Int64) (rng : Rng) : List Sds × Rng :=
  if count.toInt = 1 then
    let (item, rng) := choose set rng
    (item.toList, rng)
  else if 1 < count.toInt then chooseMultiple set count.toInt.toNat rng
  else ([], rng)

theorem foldl_addMembers (added : List Sds) (r : List Sds × Nat) (m : Sds)
    (here : m ∈ r.1 ∨ m ∈ added) :
    m ∈ (added.foldl (fun r m => if m ∈ r.1 then r else (r.1 ++ [m], r.2 + 1)) r).1 := by
  induction added generalizing r with
  | nil => exact here.resolve_right List.not_mem_nil
  | cons x added ih =>
      rw [List.foldl_cons]
      apply ih
      rcases here with old | new
      · left
        split
        · exact old
        · exact List.mem_append_left _ old
      · rcases List.mem_cons.mp new with rfl | later
        · left
          split
          · assumption
          · exact List.mem_append_right _ (List.mem_singleton_self m)
        · exact Or.inr later

theorem mem_addMembers {set added : List Sds} {m : Sds} (here : m ∈ set ∨ m ∈ added) :
    m ∈ (addMembers set added).1 :=
  foldl_addMembers added (set, 0) m here

theorem foldl_removeMembers (removed : List Sds) (r : List Sds × Nat) {m : Sds}
    (here : m ∈ r.1) (stays : m ∉ removed) :
    m ∈ (removed.foldl (fun r m => if m ∈ r.1 then (r.1.erase m, r.2 + 1) else r) r).1 := by
  induction removed generalizing r with
  | nil => exact here
  | cons x removed ih =>
      simp only [List.mem_cons, not_or] at stays
      rw [List.foldl_cons]
      apply ih _ _ stays.2
      split
      · exact (List.mem_erase_of_ne stays.1).mpr here
      · exact here

theorem mem_removeMembers {set removed : List Sds} {m : Sds} (here : m ∈ set)
    (stays : m ∉ removed) : m ∈ (removeMembers set removed).1 :=
  foldl_removeMembers removed (set, 0) here stays

theorem mem_popMembers {count : Nat} {set : List Sds} {rng : Rng} {m : Sds} (here : m ∈ set)
    (stays : m ∉ (popMembers count set rng).1) : m ∈ (popMembers count set rng).2.1 := by
  induction count generalizing set rng with
  | zero => exact here
  | succ count ih =>
      rw [popMembers] at stays ⊢
      generalize choose set rng = drawn at stays ⊢
      obtain ⟨item, rng'⟩ := drawn
      cases item with
      | none => exact here
      | some x =>
          simp only [List.mem_cons, not_or] at stays
          exact ih ((List.mem_erase_of_ne stays.1).mpr here) stays.2

end Zumic.Engine
