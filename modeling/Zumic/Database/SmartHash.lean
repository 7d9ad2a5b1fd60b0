/- Hashes that are a vector of pairs while small and a hash table once grown
(`smarthash_base.rs`). -/

import Zumic.Database.Value

namespace Zumic.Database

open Lib

/-- The length from which a hash is kept as a table. -/
def SmartHash.threshold : Nat := 32

inductive SmartHash.Repr where
  | zip (vec : List (Sds × Sds))
  | map (table : HashMap Sds Sds)

structure SmartHash where
  repr : SmartHash.Repr
  pendingDowngrade : Bool

namespace SmartHash

def new : SmartHash := ⟨.zip [], false⟩

variable (hasher : HashMap.Hasher Sds Sds) (sh : SmartHash)

def len : Nat :=
  match sh.repr with
  | .zip vec => vec.length
  | .map table => table.len

def isEmpty : Bool := sh.len == 0

def contains (key : Sds) : Bool :=
  match sh.repr with
  | .zip vec => vec.any fun e => e.1 = key
  | .map table => table.containsKey key

/-- The representation is taken out first, so that a vector would be lost here. -/
def doDowngrade : SmartHash :=
  match sh.repr with
  | .map table => ⟨.zip table.entries, false⟩
  | .zip _ => ⟨.zip [], false⟩

/-- The state after the downgrade that an earlier removal left behind. -/
def downgraded : SmartHash := if sh.pendingDowngrade then sh.doDowngrade else sh

def insert (key value : Sds) : Bool × SmartHash :=
  match sh.downgraded.repr with
  | .zip vec =>
      if vec.any fun e => e.1 = key then
        (false, { sh.downgraded with repr := .zip (Assoc.insert vec key value) })
      else if threshold ≤ (vec ++ [(key, value)]).length then
        (true, { sh.downgraded with repr := .map (HashMap.fill hasher (vec ++ [(key, value)])) })
      else (true, { sh.downgraded with repr := .zip (vec ++ [(key, value)]) })
  | .map table =>
      ((table.get key).isNone, { sh.downgraded with repr := .map (table.insert hasher key value) })

def get (key : Sds) : Option Sds :=
  match sh.repr with
  | .zip vec => (vec.find? fun e => e.1 = key).map Prod.snd
  | .map table => table.get key

def remove (key : Sds) : Bool × SmartHash :=
  match sh.repr with
  | .zip vec =>
      (vec.any fun e => e.1 = key, { sh with repr := .zip (vec.eraseP fun e => e.1 = key) })
  | .map table =>
      let removed := (table.get key).isSome
      let table := table.remove hasher key
      (removed, ⟨.map table, sh.pendingDowngrade || (removed && table.len < threshold / 2)⟩)

def clear : SmartHash := ⟨.zip [], false⟩

def entries : List (Sds × Sds) :=
  match sh.repr with
  | .zip vec => vec
  | .map table => table.entries

def keys : List Sds := sh.entries.map Prod.fst

def values : List Sds := sh.entries.map Prod.snd

/-- The iterator borrows the hash mutably and settles a pending downgrade. -/
def iter : List (Sds × Sds) × SmartHash := (sh.downgraded.entries, sh.downgraded)

def extend (pairs : List (Sds × Sds)) : SmartHash :=
  pairs.foldl (fun sh e => (sh.insert hasher e.1 e.2).2) sh

def fromIter (pairs : List (Sds × Sds)) : SmartHash := new.extend hasher pairs

/-- A use of a hash. -/
inductive Call where
  | insert (key value : Sds)
  | get (key : Sds)
  | contains (key : Sds)
  | remove (key : Sds)
  | clear
  | iter
  | keys
  | values
  | entries
  | extend (pairs : List (Sds × Sds))
  | len

/-- What a use returns; listings are compared up to their order. -/
inductive Reply where
  | flag (b : Bool)
  | value (v : Option Sds)
  | pairs (items : Multiset (Sds × Sds))
  | names (items : Multiset Sds)
  | count (n : Nat)
  | done

def step (sh : SmartHash) : Call → Reply × SmartHash
  | .insert key value => (.flag (sh.insert hasher key value).1, (sh.insert hasher key value).2)
  | .get key => (.value (sh.get key), sh)
  | .contains key => (.flag (sh.contains key), sh)
  | .remove key => (.flag (sh.remove hasher key).1, (sh.remove hasher key).2)
  | .clear => (.done, clear)
  | .iter => (.pairs sh.iter.1, sh.iter.2)
  | .keys => (.names sh.keys, sh)
  | .values => (.names sh.values, sh)
  | .entries => (.pairs sh.entries, sh)
  | .extend pairs => (.done, sh.extend hasher pairs)
  | .len => (.count sh.len, sh)

/-- The uses in their order, each with the hasher that orders the table after it. -/
def run (sh : SmartHash) : List (HashMap.Hasher Sds Sds × Call) → List Reply × SmartHash
  | [] => ([], sh)
  | (hasher, call) :: calls =>
      let (reply, sh) := sh.step hasher call
      let (replies, sh) := sh.run calls
      (reply :: replies, sh)

/-- The same use of a finite map. -/
def mapStep (m : List (Sds × Sds)) : Call → Reply × List (Sds × Sds)
  | .insert key value => (.flag (Assoc.get m key).isNone, Assoc.insert m key value)
  | .get key => (.value (Assoc.get m key), m)
  | .contains key => (.flag (Assoc.get m key).isSome, m)
  | .remove key => (.flag (Assoc.get m key).isSome, Assoc.erase m key)
  | .clear => (.done, [])
  | .iter => (.pairs m, m)
  | .keys => (.names (Assoc.keys m), m)
  | .values => (.names (m.map Prod.snd), m)
  | .entries => (.pairs m, m)
  | .extend pairs => (.done, pairs.foldl (fun m e => Assoc.insert m e.1 e.2) m)
  | .len => (.count m.length, m)

def mapRun : List (Sds × Sds) → List Call → List Reply × List (Sds × Sds)
  | m, [] => ([], m)
  | m, call :: calls =>
      let (reply, m) := mapStep m call
      let (replies, m) := mapRun m calls
      (reply :: replies, m)

/-- A vector is short and names each key once; a downgrade is pending for a small table only. -/
structure Sound (sh : SmartHash) : Prop where
  zip : ∀ vec, sh.repr = .zip vec → (Assoc.keys vec).Nodup ∧ vec.length < threshold
  pending : sh.pendingDowngrade = true →
    ∃ table, sh.repr = .map table ∧ table.len < threshold / 2

/-- The hash shows a finite map. -/
structure Holds (sh : SmartHash) (m : List (Sds × Sds)) : Prop where
  sound : sh.Sound
  shown : sh.entries.Perm m

variable {sh : SmartHash} {m : List (Sds × Sds)}

theorem Holds.distinct (holds : sh.Holds m) : (Assoc.keys m).Nodup := by
  have same := (holds.shown.map Prod.fst).nodup_iff
  refine same.mp ?_
  rw [entries]
  split
  · rename_i vec zip
    exact (holds.sound.zip vec zip).1
  · rename_i table _
    exact table.distinct

theorem holds_zip {vec : List (Sds × Sds)} (distinct : (Assoc.keys vec).Nodup)
    (short : vec.length < threshold) (shown : vec.Perm m) : Holds ⟨.zip vec, false⟩ m where
  sound := {
    zip := by
      rintro _ ⟨⟩
      exact ⟨distinct, short⟩
    pending := by rintro ⟨⟩ }
  shown := shown

theorem holds_map {table : HashMap Sds Sds} (shown : table.entries.Perm m) :
    Holds ⟨.map table, false⟩ m where
  sound := ⟨by rintro _ ⟨⟩, by rintro ⟨⟩⟩
  shown := shown

theorem holds_new : new.Holds [] := holds_zip List.nodup_nil (by decide) (List.Perm.refl _)

theorem Holds.downgraded (holds : sh.Holds m) :
    sh.downgraded.Holds m ∧ sh.downgraded.pendingDowngrade = false := by
  rw [SmartHash.downgraded]
  by_cases pending : sh.pendingDowngrade = true
  · rw [if_pos pending]
    obtain ⟨table, map, few⟩ := holds.sound.pending pending
    have shown := holds.shown
    rw [entries, map] at shown
    rw [doDowngrade, map]
    have short : table.entries.length < threshold :=
      Nat.lt_trans few (by decide)
    exact ⟨holds_zip table.distinct short shown, rfl⟩
  · rw [if_neg pending]
    exact ⟨holds, Bool.eq_false_iff.mpr pending⟩

theorem Holds.get (holds : sh.Holds m) (key : Sds) : sh.get key = Assoc.get m key := by
  have shown := holds.shown
  rw [SmartHash.get]
  rw [entries] at shown
  split
  · rename_i vec zip
    rw [zip] at shown
    rw [Assoc.map_find?_key, Assoc.get_of_perm shown (holds.sound.zip vec zip).1]
  · rename_i table map
    rw [map] at shown
    exact HashMap.get_of_entries_perm shown key

theorem Holds.contains (holds : sh.Holds m) (key : Sds) :
    sh.contains key = (Assoc.get m key).isSome := by
  rw [← holds.get, SmartHash.contains, SmartHash.get]
  split
  · rw [Assoc.any_key, Assoc.map_find?_key]
  · rfl

theorem Holds.len (holds : sh.Holds m) : sh.len = m.length := by
  rw [← holds.shown.length_eq, SmartHash.len, entries]
  split <;> rfl

theorem Holds.insert (holds : sh.Holds m) (hasher : HashMap.Hasher Sds Sds) (key value : Sds) :
    (sh.insert hasher key value).1 = (Assoc.get m key).isNone ∧
      (sh.insert hasher key value).2.Holds (Assoc.insert m key value) := by
  obtain ⟨holds', settled⟩ := holds.downgraded
  rw [SmartHash.insert]
  generalize sh.downgraded = sh' at holds' settled
  obtain ⟨repr, pending⟩ := sh'
  subst settled
  cases repr with
  | map table =>
      have shown : table.entries.Perm m := holds'.shown
      have read := HashMap.get_of_entries_perm shown key
      exact ⟨congrArg Option.isNone read, holds_map (HashMap.entries_insert_perm shown key value)⟩
  | zip vec =>
      have shown : vec.Perm m := holds'.shown
      obtain ⟨distinct, short⟩ := holds'.sound.zip vec rfl
      have inserted := Assoc.insert_perm shown distinct key value
      have distinct' := Assoc.nodup_keys_insert distinct key value
      have length' := Assoc.length_insert vec key value
      dsimp only
      rw [Assoc.any_key, ← Assoc.get_of_perm shown distinct]
      cases read : Assoc.get vec key with
      | some old =>
          rw [read] at length'
          refine ⟨rfl, holds_zip distinct' (by simpa [length'] using short) inserted⟩
      | none =>
          have pushed := Assoc.insert_of_not_mem (Assoc.get_eq_none_iff.mp read) value
          rw [pushed] at inserted distinct' length'
          rw [if_neg (by simp)]
          split
          · refine ⟨rfl, holds_map ?_⟩
            exact (HashMap.entries_fill_perm distinct').trans inserted
          · rename_i short'
            exact ⟨rfl, holds_zip distinct' (Nat.lt_of_not_le short') inserted⟩

theorem Holds.remove (holds : sh.Holds m) (hasher : HashMap.Hasher Sds Sds) (key : Sds) :
    (sh.remove hasher key).1 = (Assoc.get m key).isSome ∧
      (sh.remove hasher key).2.Holds (Assoc.erase m key) := by
  obtain ⟨repr, pending⟩ := sh
  cases repr with
  | zip vec =>
      have shown : vec.Perm m := holds.shown
      obtain ⟨distinct, short⟩ := holds.sound.zip vec rfl
      have quiet : pending = false := by
        cases pending with
        | false => rfl
        | true =>
            obtain ⟨table, map, _⟩ := holds.sound.pending rfl
            cases map
      subst quiet
      rw [SmartHash.remove]
      dsimp only
      rw [Assoc.any_key, Assoc.get_of_perm shown distinct, Assoc.eraseP_key distinct]
      refine ⟨rfl, holds_zip (Assoc.nodup_keys_erase distinct key) ?_ (Assoc.erase_perm shown key)⟩
      exact Nat.lt_of_le_of_lt (Assoc.erase_sublist vec key).length_le short
  | map table =>
      have shown : table.entries.Perm m := holds.shown
      have erased := HashMap.entries_remove_perm hasher shown key
      refine ⟨congrArg Option.isSome (HashMap.get_of_entries_perm shown key), ⟨?_, ?_⟩, erased⟩
      · rintro _ ⟨⟩
      · intro pending'
        refine ⟨_, rfl, ?_⟩
        rw [SmartHash.remove] at pending'
        dsimp only at pending'
        rw [Bool.or_eq_true, Bool.and_eq_true, decide_eq_true_iff] at pending'
        rcases pending' with before | ⟨_, few⟩
        · obtain ⟨table', map, few⟩ := holds.sound.pending before
          obtain rfl := Repr.map.inj map
          refine Nat.lt_of_le_of_lt ?_ few
          rw [HashMap.len, erased.length_eq, HashMap.len, shown.length_eq]
          exact (Assoc.erase_sublist m key).length_le
        · exact few

theorem Holds.extend (holds : sh.Holds m) (hasher : HashMap.Hasher Sds Sds)
    (pairs : List (Sds × Sds)) :
    (sh.extend hasher pairs).Holds (pairs.foldl (fun m e => Assoc.insert m e.1 e.2) m) := by
  induction pairs generalizing sh m with
  | nil => exact holds
  | cons e pairs ih => exact ih (holds.insert hasher e.1 e.2).2

theorem Holds.step (holds : sh.Holds m) (hasher : HashMap.Hasher Sds Sds) (call : Call) :
    (sh.step hasher call).1 = (mapStep m call).1 ∧
      (sh.step hasher call).2.Holds (mapStep m call).2 := by
  have listed : (sh.entries : Multiset (Sds × Sds)) = m := Multiset.coe_eq_coe.mpr holds.shown
  cases call with
  | insert key value =>
      obtain ⟨fresh, holds'⟩ := holds.insert hasher key value
      exact ⟨congrArg Reply.flag fresh, holds'⟩
  | get key => exact ⟨congrArg Reply.value (holds.get key), holds⟩
  | contains key => exact ⟨congrArg Reply.flag (holds.contains key), holds⟩
  | remove key =>
      obtain ⟨found, holds'⟩ := holds.remove hasher key
      exact ⟨congrArg Reply.flag found, holds'⟩
  | clear => exact ⟨rfl, holds_new⟩
  | iter =>
      obtain ⟨holds', _⟩ := holds.downgraded
      exact ⟨congrArg Reply.pairs (Multiset.coe_eq_coe.mpr holds'.shown), holds'⟩
  | keys =>
      have names := Multiset.coe_eq_coe.mpr (holds.shown.map Prod.fst)
      exact ⟨congrArg Reply.names names, holds⟩
  | values =>
      have names := Multiset.coe_eq_coe.mpr (holds.shown.map Prod.snd)
      exact ⟨congrArg Reply.names names, holds⟩
  | entries => exact ⟨congrArg Reply.pairs listed, holds⟩
  | extend pairs => exact ⟨rfl, holds.extend hasher pairs⟩
  | len => exact ⟨congrArg Reply.count holds.len, holds⟩

theorem Holds.run (holds : sh.Holds m) (calls : List (HashMap.Hasher Sds Sds × Call)) :
    (sh.run calls).1 = (mapRun m (calls.map Prod.snd)).1 ∧
      (sh.run calls).2.Holds (mapRun m (calls.map Prod.snd)).2 := by
  induction calls generalizing sh m with
  | nil => exact ⟨rfl, holds⟩
  | cons c calls ih =>
      obtain ⟨hasher, call⟩ := c
      obtain ⟨reply, holds'⟩ := holds.step hasher call
      obtain ⟨replies, holds''⟩ := ih holds'
      refine ⟨?_, holds''⟩
      rw [SmartHash.run, List.map_cons, mapRun]
      dsimp only
      rw [reply, replies]

/-- However the tables are ordered, every use returns what it returns on a finite map, and both
representations keep within their bounds. -/
theorem smartHash_run (calls : List (HashMap.Hasher Sds Sds × Call)) :
    (new.run calls).1 = (mapRun [] (calls.map Prod.snd)).1 ∧
      (new.run calls).2.entries.Perm (mapRun [] (calls.map Prod.snd)).2 ∧
      (Assoc.keys (mapRun [] (calls.map Prod.snd)).2).Nodup ∧ (new.run calls).2.Sound := by
  obtain ⟨replies, holds⟩ := holds_new.run calls
  exact ⟨replies, holds.shown, holds.distinct, holds.sound⟩

end SmartHash

end Zumic.Database
