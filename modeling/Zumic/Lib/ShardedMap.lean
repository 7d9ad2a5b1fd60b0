/- Concurrent maps whose keys are spread over shards, each under a guard of its own. -/

import Mathlib.Algebra.Ring.Nat
import Zumic.Lib.Grouping
import Zumic.Lib.Guards

namespace Zumic.Lib

open Lib.Guards

/-- A shard of a table. -/
structure ShardLock (τ : Type) where
  table : τ
  number : Nat
  deriving DecidableEq

/-- A table of a state: its entries, and how their keys are spread over the shards. -/
structure ShardedMap (τ σ κ α : Type) where
  table : τ
  count : Nat
  shardOf : κ → Nat
  inRange : ∀ key, shardOf key < count
  get : σ → List (κ × α)
  set : List (κ × α) → σ → σ
  get_set : ∀ m s, get (set m s) = m
  set_get : ∀ s, set (get s) s = s
  set_set : ∀ m m' s, set m' (set m s) = set m' s

namespace ShardedMap

variable {τ σ κ α β : Type} (map : ShardedMap τ σ κ α)

def guard (key : κ) (mode : Mode) : Guard (ShardLock τ) := ⟨⟨map.table, map.shardOf key⟩, mode⟩

def shards : List (ShardLock τ) := (List.range map.count).map fun number => ⟨map.table, number⟩

/-- The entries that a shard holds. -/
def inShard (shard : ShardLock τ) (s : σ) : List (κ × α) :=
  (map.get s).filter fun p => map.shardOf p.1 = shard.number

/-- No guard of this map is held. -/
def Free (held : List (Guard (ShardLock τ))) : Prop := ∀ g ∈ held, g.lock.table ≠ map.table

section

variable {map} {held : List (Guard (ShardLock τ))}

theorem free_nil : map.Free [] := by
  intro g member
  cases member

theorem Free.granted (free : map.Free held) (key : κ) (mode : Mode) :
    Granted (map.guard key mode) held := by
  rintro h member ⟨same, -⟩
  exact free h member (congrArg ShardLock.table same).symm

theorem Free.granted_shards (free : map.Free held) (mode : Mode) :
    ∀ shard ∈ map.shards, Granted ⟨shard, mode⟩ held := by
  intro shard member h inside conflict
  obtain ⟨number, -, rfl⟩ := List.mem_map.mp member
  exact free h inside (congrArg ShardLock.table conflict.1).symm

theorem flatten_inShard (s : σ) : ((map.shards.map fun shard => map.inShard shard s).flatten).Perm
    (map.get s) := by
  classical
  have once : ∀ p ∈ map.get s, (List.range map.count).count (map.shardOf p.1) = 1 := fun p _ =>
    List.count_eq_one_of_mem List.nodup_range (List.mem_range.mpr (map.inRange p.1))
  unfold shards
  rw [List.map_map, ← List.flatMap_def]
  exact Grouping.flatMap_filter_perm once

theorem foldl_clear (numbers : List Nat) (s : σ) :
    (numbers.map fun number => ShardLock.mk map.table number).foldl (fun s shard =>
      map.set ((map.get s).filter fun p => map.shardOf p.1 ≠ shard.number) s) s =
    map.set ((map.get s).filter fun p => map.shardOf p.1 ∉ numbers) s := by
  induction numbers generalizing s with
  | nil => simp [map.set_get]
  | cons number rest ih =>
      rw [List.map_cons, List.foldl_cons, ih, map.get_set, map.set_set, List.filter_filter]
      congr 2
      funext p
      simp [Bool.and_comm]

end

section

variable [DecidableEq κ]

def look (key : κ) (s : σ) : Option α := Assoc.get (map.get s) key

variable [DecidableEq τ]

def insert (key : κ) (value : α) : Guarded (ShardLock τ) σ Unit :=
  hold (map.guard key .write) (modify fun s => map.set (Assoc.insert (map.get s) key value) s)

/-- What is read off a value that is there, under the guard of its look-up. -/
def view (key : κ) (f : α → β) : Guarded (ShardLock τ) σ (Option β) :=
  borrow (map.guard key .read) (map.look key) (fun value => pure (some (f value))) (pure none)

/-- Changes a value that is there, under the guard of its look-up. -/
def update (key : κ) (change : α → β × α) : Guarded (ShardLock τ) σ (Option β) :=
  borrow (map.guard key .write) (map.look key)
    (fun value => act fun s =>
      (some (change value).1, map.set (Assoc.insert (map.get s) key (change value).2) s))
    (pure none)

def remove (key : κ) : Guarded (ShardLock τ) σ (Option α) :=
  hold (map.guard key .write)
    (act fun s => (map.look key s, map.set (Assoc.erase (map.get s) key) s))

variable {map} {held : List (Guard (ShardLock τ))}

theorem insert_run (free : map.Free held) (key : κ) (value : α) (s : σ) :
    map.insert key value held s = .done () (map.set (Assoc.insert (map.get s) key value) s) :=
  hold_granted (free.granted key .write)

theorem view_run (free : map.Free held) (key : κ) (f : α → β) (s : σ) :
    map.view key f held s = .done ((map.look key s).map f) s := by
  unfold view
  cases looked : map.look key s with
  | none => exact borrow_absent (free.granted key .read) looked
  | some value => exact borrow_found (free.granted key .read) looked

theorem remove_run (free : map.Free held) (key : κ) (s : σ) :
    map.remove key held s = .done (map.look key s) (map.set (Assoc.erase (map.get s) key) s) :=
  hold_granted (free.granted key .write)

theorem update_some (free : map.Free held) {key : κ} {value : α} {s : σ} (change : α → β × α)
    (looked : map.look key s = some value) : map.update key change held s =
      .done (some (change value).1) (map.set (Assoc.insert (map.get s) key (change value).2) s) :=
  borrow_found (free.granted key .write) looked

theorem update_none (free : map.Free held) {key : κ} {s : σ} (change : α → β × α)
    (looked : map.look key s = none) : map.update key change held s = .done none s :=
  borrow_absent (free.granted key .write) looked

end

section

variable [DecidableEq τ]

def len : Guarded (ShardLock τ) σ Nat := do
  let counts ← each .read (fun shard => read fun s => (map.inShard shard s).length) map.shards
  pure counts.sum

def clear : Guarded (ShardLock τ) σ Unit := do
  let _ ← each .write (fun shard => modify fun s =>
    map.set ((map.get s).filter fun p => map.shardOf p.1 ≠ shard.number) s) map.shards
  pure ()

/-- All entries, shard by shard. -/
def iter : Guarded (ShardLock τ) σ (List (κ × α)) := do
  let parts ← sweep (fun shard => read (map.inShard shard)) [] map.shards
  pure parts.flatten

variable {map} {held : List (Guard (ShardLock τ))}

theorem len_run (free : map.Free held) (s : σ) :
    map.len held s = .done (map.get s).length s := by
  have counted := each_read (fun shard s => (map.inShard shard s).length)
    (free.granted_shards .read) s
  unfold len
  rw [bind_done counted]
  have total := (map.flatten_inShard s).length_eq
  rw [List.length_flatten, List.map_map] at total
  exact congrArg (fun n => Run.done n s) total

theorem clear_run (free : map.Free held) (s : σ) : map.clear held s = .done () (map.set [] s) := by
  have cleared := each_modify (fun shard s =>
    map.set ((map.get s).filter fun p => map.shardOf p.1 ≠ shard.number) s)
    (free.granted_shards .write) s
  unfold clear
  rw [bind_done cleared]
  have empty : (map.get s).filter (fun p => map.shardOf p.1 ∉ List.range map.count) = [] := by
    apply List.filter_eq_nil_iff.mpr
    intro p _ outside
    exact of_decide_eq_true outside (List.mem_range.mpr (map.inRange p.1))
  have all := map.foldl_clear (List.range map.count) s
  rw [empty] at all
  exact congrArg (Run.done ()) all

theorem iter_run (free : map.Free held) (s : σ) :
    ∃ listed, map.iter held s = .done listed s ∧ listed.Perm (map.get s) := by
  have swept := @sweep_read _ _ _ held _ [] _ map.inShard (free.granted_shards .read) s
  refine ⟨_, ?_, map.flatten_inShard s⟩
  unfold iter
  rw [bind_done swept]
  rfl

end

end ShardedMap

end Zumic.Lib
