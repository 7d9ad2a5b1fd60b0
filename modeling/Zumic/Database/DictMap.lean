/- The dictionary is a finite map, whatever the hash function and wherever a rehash stands. -/

import Zumic.Database.Rehashing

namespace Zumic.Database

open Lib Lib.Buffer HashTable

namespace Dict

variable {K V : Type} {hash : K → UInt64} {d : Dict K V} {m : List (K × V)}

@[simp] theorem table_setTable_self (d : Dict K V) (second : Bool) (t : HashTable K V) :
    (d.setTable second t).table second = t := by
  cases second <;> rfl

@[simp] theorem setTable_setTable (d : Dict K V) (second : Bool) (t t' : HashTable K V) :
    (d.setTable second t).setTable second t' = d.setTable second t' := by
  cases second <;> rfl

theorem Holds.table (holds : d.Holds hash m) (second : Bool) : (d.table second).Good hash := by
  cases second with
  | false => exact holds.first
  | true => exact holds.second

theorem Holds.shown_table (holds : d.Holds hash m) (second : Bool) :
    ((d.table second).items ++ (d.table !second).items).Perm m := by
  cases second with
  | false => exact holds.shown
  | true => exact List.perm_append_comm.trans holds.shown

theorem Holds.perm {m' : List (K × V)} (holds : d.Holds hash m) (same : m.Perm m') :
    d.Holds hash m' where
  first := holds.first
  second := holds.second
  idle := holds.idle
  busy := holds.busy
  shown := holds.shown.trans same
  distinct := (same.map Prod.fst).nodup holds.distinct

theorem Holds.setTable (holds : d.Holds hash m) {second : Bool} {t : HashTable K V}
    {m' : List (K × V)} (good : t.Good hash)
    (size : t.buckets.length = (d.table second).buckets.length)
    (below : second = false → ∀ idx, d.rehashIdx = some idx → Below idx t)
    (shown : (t.items ++ (d.table !second).items).Perm m') (distinct : (Assoc.keys m').Nodup) :
    (d.setTable second t).Holds hash m' := by
  cases second with
  | false =>
      refine ⟨good, holds.second, holds.idle, fun idx cursor => ?_, shown, distinct⟩
      exact ⟨(holds.busy idx cursor).1, below rfl idx cursor⟩
  | true =>
      refine ⟨holds.first, good, fun rest => ?_, fun idx cursor => ?_,
        List.perm_append_comm.trans shown, distinct⟩
      · have none' : t.buckets.length = 0 := size.trans (congrArg List.length (holds.idle rest))
        exact List.length_eq_zero_iff.mp none'
      · exact ⟨ne_nil_of_length_eq size (holds.busy idx cursor).1, (holds.busy idx cursor).2⟩

section

/-- An entry points at the node of its key. -/
structure Points (hash : K → UInt64) (d : Dict K V) (e : OccupiedEntry K V) : Prop where
  there : (d.table e.second).buckets[e.bucket]? =
    some (e.slot.before ++ (e.key, e.slot.val) :: e.slot.next)
  hashed : (d.table e.second).slot (hash e.key) = e.bucket

theorem Below.set {t : HashTable K V} {idx i used : Nat} {chain chain' : List (K × V)}
    (below : Below idx t) (there : t.buckets[i]? = some chain) (filled : chain ≠ []) :
    Below idx { t with buckets := t.buckets.set i chain', used := used } := by
  intro j bound c at'
  by_cases same : i = j
  · subst same
    exact absurd (below i bound chain there) filled
  · rw [List.getElem?_set_ne same] at at'
    exact below j bound c at'

/-- The entries but the one that is pointed at: its chain can be changed around it. -/
theorem Holds.pointed (holds : d.Holds hash m) {e : OccupiedEntry K V} (points : d.Points hash e) :
    ∃ rest, m.Perm ((e.key, e.slot.val) :: rest) ∧
      (∀ change : V → V, (e.getMut d change).Holds hash ((e.key, change e.slot.val) :: rest)) ∧
      ∃ d', e.remove d = .ok (e.slot.val, d') ∧ d'.Holds hash rest := by
  have good := holds.table e.second
  obtain ⟨others, listed, -, change⟩ := good.focus points.there
  let rest := e.slot.before ++ (e.slot.next ++ (others ++ (d.table !e.second).items))
  have around : ∀ v : V, ((e.slot.before ++ (e.key, v) :: e.slot.next ++ others) ++
      (d.table !e.second).items).Perm ((e.key, v) :: rest) := by
    intro v
    simp only [List.append_assoc, List.cons_append]
    exact List.perm_middle
  have placed : ∀ p ∈ e.slot.before ++ e.slot.next,
      (d.table e.second).slot (hash p.1) = e.bucket := by
    intro p member
    refine good.placed _ _ points.there p ?_
    rcases List.mem_append.mp member with before | next
    · exact List.mem_append_left _ before
    · exact List.mem_append_right _ (List.mem_cons_of_mem _ next)
  have whole : m.Perm ((e.key, e.slot.val) :: rest) :=
    ((holds.shown_table e.second).symm.trans (listed.append_right _)).trans (around e.slot.val)
  have distinct : (Assoc.keys ((e.key, e.slot.val) :: rest)).Nodup :=
    (whole.map Prod.fst).nodup holds.distinct
  have total : (d.table e.second).used =
      (e.slot.before ++ e.slot.next ++ others).length + 1 := by
    rw [good.counted, listed.length_eq]
    simp only [List.length_append, List.length_cons]
    omega
  have filled : e.slot.before ++ (e.key, e.slot.val) :: e.slot.next ≠ [] := by simp
  refine ⟨rest, whole, fun f => ?_, ?_⟩
  · have placed' : ∀ p ∈ e.slot.before ++ (e.key, f e.slot.val) :: e.slot.next,
        (d.table e.second).slot (hash p.1) = e.bucket := by
      intro p member
      rcases List.mem_append.mp member with before | next
      · exact placed p (List.mem_append_left _ before)
      · rcases List.mem_cons.mp next with rfl | next
        · exact points.hashed
        · exact placed p (List.mem_append_right _ next)
    have count : (d.table e.second).used =
        (e.slot.before ++ (e.key, f e.slot.val) :: e.slot.next ++ others).length := by
      rw [total]
      simp only [List.length_append, List.length_cons]
      omega
    obtain ⟨good', listed'⟩ := change _ _ placed' count
    refine holds.setTable good' List.length_set (fun first idx cursor => ?_)
      ((listed'.append_right _).trans (around _)) distinct
    refine Below.set ?_ points.there filled
    rw [first]
    exact (holds.busy idx cursor).2
  · have count : (d.table e.second).used - 1 =
        (e.slot.before ++ e.slot.next ++ others).length := by omega
    obtain ⟨good', listed'⟩ := change _ _ placed count
    refine ⟨d.setTable e.second { d.table e.second with
      buckets := (d.table e.second).buckets.set e.bucket (e.slot.before ++ e.slot.next)
      used := (d.table e.second).used - 1 }, ?_, ?_⟩
    · have some' : 1 ≤ (d.table e.second).used := by omega
      rw [OccupiedEntry.remove, OccupiedEntry.write]
      simp only [table_setTable_self, setTable_setTable]
      rw [sub_of_le some']
      rfl
    · refine holds.setTable good' List.length_set (fun first idx cursor => ?_) ?_
        (List.nodup_cons.mp distinct).2
      · refine Below.set ?_ points.there filled
        rw [first]
        exact (holds.busy idx cursor).2
      · refine (listed'.append_right _).trans ?_
        simp only [List.append_assoc]
        exact List.Perm.refl _

variable [DecidableEq K]

theorem Holds.findIn (holds : d.Holds hash m) (second : Bool) (key : K) :
    (d.findIn hash second key = .ok none ∧ key ∉ Assoc.keys (d.table second).items) ∨
      ∃ e, d.findIn hash second key = .ok (some e) ∧ e.key = key ∧ d.Points hash e := by
  have good := holds.table second
  by_cases none' : (d.table second).buckets = []
  · refine Or.inl ⟨?_, ?_⟩
    · have empty : (d.table second).isEmptyTable = true := List.isEmpty_iff.mpr none'
      rw [Dict.findIn, if_pos empty]
    · rw [items_eq_nil none']
      exact List.not_mem_nil
  · have filled : ¬(d.table second).isEmptyTable = true := fun empty =>
      none' (List.isEmpty_iff.mp empty)
    obtain ⟨chain, there, read⟩ := good.bucket none' (hash key)
    rw [Dict.findIn, if_neg filled]
    simp only [read, ok_bind]
    cases found : findEntrySlot chain key with
    | none =>
        refine Or.inl ⟨rfl, fun member => ?_⟩
        obtain ⟨others, listed, elsewhere, -⟩ := good.focus there
        rw [Assoc.keys, (listed.map Prod.fst).mem_iff, List.map_append, List.mem_append] at member
        rcases member with here | other
        · exact findEntrySlot_eq_none found here
        · obtain ⟨p, inOthers, rfl⟩ := List.mem_map.mp other
          exact elsewhere p inOthers rfl
    | some slot =>
        refine Or.inr ⟨_, rfl, rfl, ?_, rfl⟩
        rw [← findEntrySlot_eq_some found]
        exact there

theorem Holds.find_cases (holds : d.Holds hash m) (key : K) :
    (d.find hash key = .ok none ∧ key ∉ Assoc.keys m) ∨
      ∃ e, d.find hash key = .ok (some e) ∧ e.key = key ∧ d.Points hash e := by
  have members : key ∈ Assoc.keys m ↔
      key ∈ Assoc.keys d.ht0.items ∨ key ∈ Assoc.keys d.ht1.items := by
    rw [Assoc.keys, ← (holds.shown.map Prod.fst).mem_iff, List.map_append, List.mem_append]
    rfl
  rcases holds.findIn false key with ⟨missing, absent⟩ | ⟨e, found, pointed⟩
  · by_cases rehashing : d.isRehashing = true
    · have looked : d.find hash key = d.findIn hash true key := by
        rw [Dict.find, missing, ok_bind, if_pos rehashing]
      rw [looked]
      rcases holds.findIn true key with ⟨missing', absent'⟩ | found
      · exact Or.inl ⟨missing', fun member => (members.mp member).elim absent absent'⟩
      · exact Or.inr found
    · refine Or.inl ⟨?_, fun member => (members.mp member).elim absent fun second => ?_⟩
      · rw [Dict.find, missing, ok_bind, if_neg rehashing]
        rfl
      · rw [items_eq_nil (holds.idle (rehashIdx_of_resting rehashing))] at second
        exact List.not_mem_nil second
  · refine Or.inr ⟨e, ?_, pointed⟩
    rw [Dict.find, found]
    rfl

theorem Holds.find (holds : d.Holds hash m) (key : K) :
    (d.find hash key = .ok none ∧ Assoc.get m key = none) ∨
      ∃ e, d.find hash key = .ok (some e) ∧ Assoc.get m key = some e.slot.val ∧
        (∀ change : V → V,
          (e.getMut d change).Holds hash (Assoc.insert m key (change e.slot.val))) ∧
        ∃ d', e.remove d = .ok (e.slot.val, d') ∧ d'.Holds hash (Assoc.erase m key) := by
  rcases holds.find_cases key with ⟨missing, absent⟩ | ⟨e, found, rfl, points⟩
  · exact Or.inl ⟨missing, Assoc.get_eq_none_iff.mpr absent⟩
  · obtain ⟨rest, whole, changed, d', removed, holds'⟩ := holds.pointed points
    obtain ⟨read, erased, inserted⟩ := Assoc.of_perm_cons whole holds.distinct
    exact Or.inr ⟨e, found, read, fun change => (changed change).perm (inserted _).symm, d', removed,
      holds'.perm erased.symm⟩

theorem Holds.add (holds : d.Holds hash m) (ready : d.Ready) {key : K}
    (absent : Assoc.get m key = none) (val : V) :
    ∃ t, (d.table d.isRehashing).prepend (hash key) (key, val) = .ok t ∧
      (d.setTable d.isRehashing t).Holds hash (Assoc.insert m key val) := by
  obtain ⟨t, put, good, listed, size⟩ := (holds.table d.isRehashing).prepend ready (key, val)
  have fresh := Assoc.get_eq_none_iff.mp absent
  have whole : (t.items ++ (d.table !d.isRehashing).items).Perm ((key, val) :: m) :=
    (listed.append_right _).trans ((holds.shown_table d.isRehashing).cons _)
  have distinct : (Assoc.keys ((key, val) :: m)).Nodup :=
    List.nodup_cons.mpr ⟨fresh, holds.distinct⟩
  have inserted : (Assoc.insert m key val).Perm ((key, val) :: m) := by
    rw [Assoc.insert_of_not_mem fresh]
    exact List.perm_append_comm
  refine ⟨t, put, (holds.setTable good size (fun resting idx cursor => ?_) whole distinct).perm
    inserted.symm⟩
  rw [isRehashing, cursor] at resting
  cases resting

end

section

variable [DecidableEq K]

theorem Begun.insert (begun : d.Begun hash m) (key : K) (val : V) :
    ∃ d', d.insert hash key val = .ok ((Assoc.get m key).isNone, d') ∧
      d'.Holds hash (Assoc.insert m key val) := by
  obtain ⟨d₀, d₁, expanded, stepped, holds₁, ready⟩ := begun
  rw [Dict.insert, expanded, ok_bind, stepped, ok_bind]
  rcases holds₁.find key with ⟨missing, absent⟩ | ⟨e, found, read, changed, -⟩
  · obtain ⟨t, put, holds'⟩ := holds₁.add ready absent val
    refine ⟨_, ?_, holds'⟩
    rw [missing, ok_bind, absent]
    simp only [put, ok_bind]
    rfl
  · refine ⟨_, ?_, changed fun _ => val⟩
    rw [found, ok_bind, read]
    rfl

theorem Holds.get (holds : d.Holds hash m) (key : K) :
    d.get hash key = .ok (Assoc.get m key) := by
  rw [Dict.get]
  rcases holds.find key with ⟨missing, absent⟩ | ⟨e, found, read, -, -⟩
  · rw [missing, absent]
    rfl
  · rw [found, read]
    rfl

/-- A value that is written through a reference. -/
def modified (m : List (K × V)) (key : K) (change : V → V) : List (K × V) :=
  match Assoc.get m key with
  | some v => Assoc.insert m key (change v)
  | none => m

theorem Holds.getMut (holds : d.Holds hash m) (key : K) (change : V → V) :
    ∃ d', d.getMut hash key change = .ok (Assoc.get m key, d') ∧
      d'.Holds hash (modified m key change) := by
  obtain ⟨d₁, stepped, holds₁, -⟩ := holds.rehashStep
  rw [Dict.getMut, stepped, ok_bind]
  rcases holds₁.find key with ⟨missing, absent⟩ | ⟨e, found, read, changed, -⟩
  · refine ⟨d₁, ?_, ?_⟩
    · rw [missing, ok_bind, absent]
      rfl
    · rw [modified, absent]
      exact holds₁
  · refine ⟨e.getMut d₁ change, ?_, ?_⟩
    · rw [found, ok_bind, read]
      rfl
    · rw [modified, read]
      exact changed change

theorem Holds.remove (holds : d.Holds hash m) (key : K) :
    ∃ d', d.remove hash key = .ok ((Assoc.get m key).isSome, d') ∧
      d'.Holds hash (Assoc.erase m key) := by
  obtain ⟨d₁, stepped, holds₁, -⟩ := holds.rehashStep
  rw [Dict.remove, stepped, ok_bind]
  rcases holds₁.find key with ⟨missing, absent⟩ | ⟨e, found, read, -, d₂, removed, holds₂⟩
  · refine ⟨d₁, ?_, ?_⟩
    · rw [missing, ok_bind, absent]
      rfl
    · rw [Assoc.erase_of_not_mem (Assoc.get_eq_none_iff.mp absent)]
      exact holds₁
  · rw [found, ok_bind, read]
    simp only [removed, ok_bind]
    split
    · exact ⟨d₂, rfl, holds₂⟩
    · obtain ⟨d₃, shrunk, holds₃⟩ := holds₂.shrinkIfNeeded
      refine ⟨d₃, ?_, holds₃⟩
      rw [shrunk]
      rfl

theorem Begun.entry (begun : d.Begun hash m) (key : K) :
    ∃ d', d'.Holds hash m ∧
      ((Assoc.get m key = none ∧ ∃ e : VacantEntry K,
          d.entry hash key = .ok (.vacant e, d') ∧ e.key = key ∧
          ∀ val, ∃ d'', e.insert d' val = .ok d'' ∧ d''.Holds hash (Assoc.insert m key val)) ∨
        ∃ e : OccupiedEntry K V, d.entry hash key = .ok (.occupied e, d') ∧
          Assoc.get m key = some e.slot.val ∧
          (∀ change : V → V,
            (e.getMut d' change).Holds hash (Assoc.insert m key (change e.slot.val))) ∧
          ∃ d'', e.remove d' = .ok (e.slot.val, d'') ∧ d''.Holds hash (Assoc.erase m key)) := by
  obtain ⟨d₀, d₁, expanded, stepped, holds₁, ready⟩ := begun
  refine ⟨d₁, holds₁, ?_⟩
  rw [Dict.entry, expanded, ok_bind, stepped, ok_bind]
  rcases holds₁.find key with ⟨missing, absent⟩ | ⟨e, found, use⟩
  · obtain ⟨chain, -, read⟩ := (holds₁.table d₁.isRehashing).bucket ready (hash key)
    refine Or.inl ⟨absent, { second := d₁.isRehashing
                             bucket := (d₁.table d₁.isRehashing).slot (hash key)
                             key := key }, ?_, rfl, fun val => ?_⟩
    · rw [missing, ok_bind, vacantEntry]
      simp only [read, ok_bind]
      rfl
    · obtain ⟨t, put, holds₂⟩ := holds₁.add ready absent val
      refine ⟨_, ?_, holds₂⟩
      rw [HashTable.prepend, read, ok_bind] at put
      cases put
      rw [VacantEntry.insert]
      simp only [read, ok_bind]
      rfl
  · refine Or.inr ⟨e, ?_, use⟩
    rw [found]
    rfl

theorem Begun.orInsertWithKey (begun : d.Begun hash m) (key : K)
    (f : K → V) (change : V → V) :
    ∃ d', d.orInsertWithKey hash key f change = .ok ((Assoc.get m key).getD (f key), d') ∧
      d'.Holds hash (Assoc.insert m key (change ((Assoc.get m key).getD (f key)))) := by
  obtain ⟨d₁, -, ⟨absent, e, opened, rfl, filled⟩ | ⟨e, opened, read, changed, -⟩⟩ :=
    begun.entry key
  · obtain ⟨d₂, put, holds₂⟩ := filled (change (f e.key))
    refine ⟨d₂, ?_, ?_⟩
    · rw [Dict.orInsertWithKey, opened, ok_bind, absent]
      simp only [put, ok_bind]
      rfl
    · rw [absent]
      exact holds₂
  · refine ⟨e.getMut d₁ change, ?_, ?_⟩
    · rw [Dict.orInsertWithKey, opened, read]
      rfl
    · rw [read]
      exact changed change

/-- What an entry holds after it was modified or filled. -/
def modifiedOr (old : Option V) (f : V → V) (default : V) : V :=
  match old with
  | some v => f v
  | none => default

theorem Begun.andModifyOrInsert (begun : d.Begun hash m) (key : K)
    (f : V → V) (default : V) :
    ∃ d', d.andModifyOrInsert hash key f default = .ok d' ∧
      d'.Holds hash (Assoc.insert m key (modifiedOr (Assoc.get m key) f default)) := by
  obtain ⟨d₁, -, ⟨absent, e, opened, -, filled⟩ | ⟨e, opened, read, changed, -⟩⟩ :=
    begun.entry key
  · obtain ⟨d₂, put, holds₂⟩ := filled default
    refine ⟨d₂, ?_, ?_⟩
    · rw [Dict.andModifyOrInsert, opened, ok_bind]
      exact put
    · rw [absent]
      exact holds₂
  · refine ⟨e.getMut d₁ f, ?_, ?_⟩
    · rw [Dict.andModifyOrInsert, opened]
      rfl
    · rw [read]
      exact changed f

theorem Begun.entryInsert (begun : d.Begun hash m) (key : K) (val : V) :
    ∃ d', d.entryInsert hash key val = .ok (Assoc.get m key, d') ∧
      d'.Holds hash (Assoc.insert m key val) := by
  obtain ⟨d₁, -, ⟨absent, e, opened, -, filled⟩ | ⟨e, opened, read, changed, -⟩⟩ :=
    begun.entry key
  · obtain ⟨d₂, put, holds₂⟩ := filled val
    refine ⟨d₂, ?_, holds₂⟩
    rw [Dict.entryInsert, opened, ok_bind, absent]
    simp only [put, ok_bind]
    rfl
  · refine ⟨_, ?_, changed fun _ => val⟩
    rw [Dict.entryInsert, opened, read]
    rfl

theorem Begun.entryRemove (begun : d.Begun hash m) (key : K) :
    ∃ d', d.entryRemove hash key = .ok (Assoc.get m key, d') ∧
      d'.Holds hash (Assoc.erase m key) := by
  obtain ⟨d₁, holds₁, ⟨absent, e, opened, -⟩ | ⟨e, opened, read, -, d₂, removed, holds₂⟩⟩ :=
    begun.entry key
  · refine ⟨d₁, ?_, ?_⟩
    · rw [Dict.entryRemove, opened, absent]
      rfl
    · rw [Assoc.erase_of_not_mem (Assoc.get_eq_none_iff.mp absent)]
      exact holds₁
  · refine ⟨d₂, ?_, holds₂⟩
    rw [Dict.entryRemove, opened, ok_bind, read]
    simp only [removed, ok_bind]
    rfl

end

end Dict

namespace DictIter

variable {K V : Type} {it : DictIter K V}

/-- The pairs that an iterator has not yielded yet. -/
def remaining (it : DictIter K V) : List (K × V) :=
  it.currentEntry ++ ((it.tables.table it.second).buckets.drop it.bucketIdx).flatten ++
    (if it.second then [] else it.tables.ht1.items)

/-- The turns that the loop of `next` can take before it returns. -/
def turns (it : DictIter K V) : Nat :=
  (it.tables.table it.second).buckets.length - it.bucketIdx +
    (if it.second then 0 else it.tables.ht1.buckets.length + 1)

theorem nextLoop_ok {fuel : Nat} (enough : it.turns < fuel) :
    ∃ it', nextLoop fuel it = .ok (it.remaining.head?, it') ∧
      it'.remaining = it.remaining.tail ∧ it'.tables = it.tables := by
  induction fuel generalizing it with
  | zero => exact absurd enough (Nat.not_lt_zero _)
  | succ fuel ih =>
      obtain ⟨d, second, bucketIdx, currentEntry⟩ := it
      cases currentEntry with
      | cons e rest => exact ⟨⟨d, second, bucketIdx, rest⟩, rfl, rfl, rfl⟩
      | nil =>
          simp only [nextLoop]
          split
          · rename_i past
            have exhausted : (d.table second).buckets.drop bucketIdx = [] :=
              List.drop_eq_nil_of_le past
            split
            · -- the first table is done, and the second one has buckets
              rename_i other
              obtain ⟨rfl, -⟩ := other
              have enough' : turns ⟨d, true, 0, []⟩ < fuel := by
                simp only [turns, Dict.table] at enough ⊢
                simp only [if_true, Bool.false_eq_true, if_false] at enough ⊢
                omega
              obtain ⟨it', yielded, rest, same⟩ := ih enough'
              have left : remaining ⟨d, false, bucketIdx, []⟩ = remaining ⟨d, true, 0, []⟩ := by
                simp only [remaining, exhausted]
                simp [Dict.table, HashTable.items]
              rw [left]
              exact ⟨it', yielded, rest, same⟩
            · rename_i last
              have none' : remaining ⟨d, second, bucketIdx, []⟩ = [] := by
                simp only [remaining, exhausted]
                cases second with
                | true => rfl
                | false =>
                    have empty : d.ht1.buckets = [] := by
                      simpa [HashTable.isEmptyTable] using last
                    simp [HashTable.items, empty]
              rw [none']
              exact ⟨_, rfl, none', rfl⟩
          · rename_i inside
            obtain ⟨chain, there, read⟩ := HashTable.bucket_of_lt (Nat.lt_of_not_le inside)
            rw [read, ok_bind]
            have enough' : turns ⟨d, second, bucketIdx + 1, chain⟩ < fuel := by
              simp only [turns] at enough ⊢
              omega
            obtain ⟨it', yielded, rest, same⟩ := ih enough'
            have left : remaining ⟨d, second, bucketIdx, []⟩ =
                remaining ⟨d, second, bucketIdx + 1, chain⟩ := by
              obtain ⟨bound, rfl⟩ := List.getElem?_eq_some_iff.mp there
              simp only [remaining]
              rw [List.drop_eq_getElem_cons bound, List.flatten_cons, List.nil_append]
            rw [left]
            exact ⟨it', yielded, rest, same⟩

theorem turns_lt (it : DictIter K V) :
    it.turns < it.tables.ht0.capacity + it.tables.ht1.capacity + 3 := by
  obtain ⟨d, second, bucketIdx, currentEntry⟩ := it
  simp only [turns, HashTable.capacity, Dict.table]
  cases second with
  | false =>
      simp only [Bool.false_eq_true, if_false]
      omega
  | true =>
      simp only [if_true]
      omega

theorem collect_ok {fuel : Nat} (enough : it.remaining.length < fuel) :
    it.collect fuel = .ok it.remaining := by
  induction fuel generalizing it with
  | zero => exact absurd enough (Nat.not_lt_zero _)
  | succ fuel ih =>
      obtain ⟨it', yielded, rest, -⟩ := nextLoop_ok it.turns_lt
      rw [collect, next, yielded, ok_bind]
      cases left : it.remaining with
      | nil => rfl
      | cons e l =>
          rw [left] at rest enough
          have enough' : it'.remaining.length < fuel := by
            rw [rest]
            exact Nat.lt_of_succ_lt_succ enough
          simp only [List.head?_cons, ih enough', ok_bind, rest, List.tail_cons]
          rfl

end DictIter

namespace Dict

variable {K V : Type} {hash : K → UInt64} {d : Dict K V} {m : List (K × V)}

theorem Holds.pairs (holds : d.Holds hash m) :
    d.pairs = .ok (d.ht0.items ++ d.ht1.items) := by
  have left : d.iter.remaining = d.ht0.items ++ d.ht1.items := rfl
  have enough : d.iter.remaining.length < d.len + 1 := by
    rw [left, holds.shown.length_eq, holds.len]
    exact Nat.lt_succ_self _
  rw [Dict.pairs, DictIter.collect_ok enough, left]

variable [DecidableEq K]

/-- The same use of a finite map. -/
def mapStep (m : List (K × V)) : Call K V → Reply K V × List (K × V)
  | .insert key val => (.flag (Assoc.get m key).isNone, Assoc.insert m key val)
  | .get key => (.value (Assoc.get m key), m)
  | .getMut key change => (.value (Assoc.get m key), modified m key change)
  | .remove key => (.flag (Assoc.get m key).isSome, Assoc.erase m key)
  | .orInsertWithKey key f change =>
      (.value (some ((Assoc.get m key).getD (f key))),
        Assoc.insert m key (change ((Assoc.get m key).getD (f key))))
  | .andModifyOrInsert key f default =>
      (.done, Assoc.insert m key (modifiedOr (Assoc.get m key) f default))
  | .entryInsert key val => (.value (Assoc.get m key), Assoc.insert m key val)
  | .entryRemove key => (.value (Assoc.get m key), Assoc.erase m key)
  | .reserve _ => (.done, m)
  | .shrinkToFit => (.done, m)
  | .clear => (.done, [])
  | .iter => (.pairs m, m)
  | .len => (.count m.length, m)

def mapRun : List (K × V) → List (Call K V) → List (Reply K V) × List (K × V)
  | m, [] => ([], m)
  | m, c :: calls =>
      let (reply, m) := mapStep m c
      let (replies, m) := mapRun m calls
      (reply :: replies, m)

/-- Room for a call on a map with `n` keys: fewer than 2^59 for one that may grow the table, whether
its key is new or not, and otherwise a table that can be allocated. -/
def Call.Fits (n : Nat) : Call K V → Prop
  | .insert _ _ => n < 2 ^ 59
  | .orInsertWithKey _ _ _ => n < 2 ^ 59
  | .andModifyOrInsert _ _ _ => n < 2 ^ 59
  | .entryInsert _ _ => n < 2 ^ 59
  | .entryRemove _ => n < 2 ^ 59
  | .reserve additional => Allocatable ((n + additional) % 2 ^ 64)
  | .shrinkToFit => n ≤ 2 ^ 59
  | _ => True

/-- Every call of a run has room. -/
def Modest : List (K × V) → List (Call K V) → Prop
  | _, [] => True
  | m, c :: calls => c.Fits m.length ∧ Modest (mapStep m c).2 calls

/-- A call returns what it returns on a map, or has no room. -/
theorem Holds.step (holds : d.Holds hash m) (c : Call K V) :
    (∃ d', d.step hash c = .ok ((mapStep m c).1, d') ∧ d'.Holds hash (mapStep m c).2) ∨
      d.step hash c = .error .capacityOverflow ∧ ¬c.Fits m.length := by
  cases c with
  | insert key val =>
      rcases holds.begun with begun | ⟨refused, many⟩
      · obtain ⟨d', done, holds'⟩ := begun.insert key val
        refine Or.inl ⟨d', ?_, holds'⟩
        rw [Dict.step, done]
        rfl
      · refine Or.inr ⟨?_, many⟩
        rw [Dict.step, Dict.insert, refused]
        rfl
  | get key =>
      refine Or.inl ⟨d, ?_, holds⟩
      rw [Dict.step, holds.get key]
      rfl
  | getMut key change =>
      obtain ⟨d', done, holds'⟩ := holds.getMut key change
      refine Or.inl ⟨d', ?_, holds'⟩
      rw [Dict.step, done]
      rfl
  | remove key =>
      obtain ⟨d', done, holds'⟩ := holds.remove key
      refine Or.inl ⟨d', ?_, holds'⟩
      rw [Dict.step, done]
      rfl
  | orInsertWithKey key f change =>
      rcases holds.begun with begun | ⟨refused, many⟩
      · obtain ⟨d', done, holds'⟩ := begun.orInsertWithKey key f change
        refine Or.inl ⟨d', ?_, holds'⟩
        rw [Dict.step, done]
        rfl
      · refine Or.inr ⟨?_, many⟩
        rw [Dict.step, Dict.orInsertWithKey, Dict.entry, refused]
        rfl
  | andModifyOrInsert key f default =>
      rcases holds.begun with begun | ⟨refused, many⟩
      · obtain ⟨d', done, holds'⟩ := begun.andModifyOrInsert key f default
        refine Or.inl ⟨d', ?_, holds'⟩
        rw [Dict.step, done]
        rfl
      · refine Or.inr ⟨?_, many⟩
        rw [Dict.step, Dict.andModifyOrInsert, Dict.entry, refused]
        rfl
  | entryInsert key val =>
      rcases holds.begun with begun | ⟨refused, many⟩
      · obtain ⟨d', done, holds'⟩ := begun.entryInsert key val
        refine Or.inl ⟨d', ?_, holds'⟩
        rw [Dict.step, done]
        rfl
      · refine Or.inr ⟨?_, many⟩
        rw [Dict.step, Dict.entryInsert, Dict.entry, refused]
        rfl
  | entryRemove key =>
      rcases holds.begun with begun | ⟨refused, many⟩
      · obtain ⟨d', done, holds'⟩ := begun.entryRemove key
        refine Or.inl ⟨d', ?_, holds'⟩
        rw [Dict.step, done]
        rfl
      · refine Or.inr ⟨?_, many⟩
        rw [Dict.step, Dict.entryRemove, Dict.entry, refused]
        rfl
  | reserve additional =>
      rcases holds.reserve additional with ⟨d', done, holds'⟩ | ⟨refused, large⟩
      · refine Or.inl ⟨d', ?_, holds'⟩
        rw [Dict.step, done]
        rfl
      · refine Or.inr ⟨?_, large⟩
        rw [Dict.step, refused]
        rfl
  | shrinkToFit =>
      rcases holds.shrinkToFit with ⟨d', done, holds'⟩ | ⟨refused, many⟩
      · refine Or.inl ⟨d', ?_, holds'⟩
        rw [Dict.step, done]
        rfl
      · refine Or.inr ⟨?_, many⟩
        rw [Dict.step, refused]
        rfl
  | clear => exact Or.inl ⟨d.clear, rfl, holds.clear⟩
  | iter =>
      refine Or.inl ⟨d, ?_, holds⟩
      rw [Dict.step, holds.pairs, ok_bind, Multiset.coe_eq_coe.mpr holds.shown]
      rfl
  | len =>
      refine Or.inl ⟨d, ?_, holds⟩
      rw [Dict.step, holds.len]
      rfl

theorem Holds.run (holds : d.Holds hash m) (calls : List (Call K V)) :
    (∃ d', d.run hash calls = .ok ((mapRun m calls).1, d') ∧ d'.Holds hash (mapRun m calls).2) ∨
      d.run hash calls = .error .capacityOverflow ∧ ¬Modest m calls := by
  induction calls generalizing d m with
  | nil => exact Or.inl ⟨d, rfl, holds⟩
  | cons c calls ih =>
      rw [Dict.run]
      rcases holds.step c with ⟨d₁, stepped, holds₁⟩ | ⟨refused, large⟩
      · rw [stepped, ok_bind]
        rcases ih holds₁ with ⟨d₂, ran, holds₂⟩ | ⟨refused, large⟩
        · refine Or.inl ⟨d₂, ?_, holds₂⟩
          simp only [ran, ok_bind]
          rfl
        · refine Or.inr ⟨?_, fun modest => large modest.2⟩
          simp only [refused]
          rfl
      · refine Or.inr ⟨?_, fun modest => large modest.1⟩
        rw [refused]
        rfl

theorem holds_history (hash : K → UInt64) (cap : Nat) (calls : List (Call K V)) :
    (∃ d, history hash cap calls = .ok ((mapRun [] calls).1, d) ∧
        d.Holds hash (mapRun [] calls).2) ∨
      history hash cap calls = .error .capacityOverflow ∧
        ¬(Allocatable cap ∧ Modest [] calls) := by
  rw [history]
  by_cases fits : Allocatable cap
  · obtain ⟨d, created, holds⟩ := holds_withCapacity (V := V) fits hash
    rw [created, ok_bind]
    rcases holds.run calls with ran | ⟨refused, large⟩
    · exact Or.inl ran
    · exact Or.inr ⟨refused, fun modest => large modest.2⟩
  · refine Or.inr ⟨?_, fun modest => fits modest.1⟩
    rw [withCapacity, withCapacity_overflow fits]
    rfl

theorem holds_of_history {cap : Nat} {calls : List (Call K V)} {replies : List (Reply K V)}
    (ran : history hash cap calls = .ok (replies, d)) : d.Holds hash (mapRun [] calls).2 := by
  rcases holds_history hash cap calls with ⟨d', ran', holds⟩ | ⟨refused, -⟩
  · obtain rfl := (Prod.mk.inj (Except.ok.inj (ran.symm.trans ran'))).2
    exact holds
  · cases ran.symm.trans refused

/-- What a dictionary shows of a finite map: all of its pairs, each key once and in one of the two
tables, with its value. -/
structure Shows (hash : K → UInt64) (d : Dict K V) (m : List (K × V)) : Prop where
  get : ∀ key, d.get hash key = .ok (Assoc.get m key)
  len : d.len = m.length
  pairs : ∃ items, d.pairs = .ok items ∧ items.Perm m
  once : (Assoc.keys (d.ht0.items ++ d.ht1.items)).Nodup

theorem Holds.shows (holds : d.Holds hash m) : d.Shows hash m where
  get := holds.get
  len := holds.len
  pairs := ⟨_, holds.pairs, holds.shown⟩
  once := (holds.shown.map Prod.fst).nodup_iff.mpr holds.distinct

/-- Whatever the hash function and the first capacity are, every sequence of uses returns what it
returns on a finite map, and leaves a dictionary that shows this map, unless it asks for a table that
cannot be allocated. -/
theorem finiteMap_run (hash : K → UInt64) (cap : Nat) (calls : List (Call K V)) :
    (∃ d', history hash cap calls = .ok ((mapRun [] calls).1, d') ∧
        d'.Shows hash (mapRun [] calls).2) ∨
      history hash cap calls = .error .capacityOverflow ∧
        ¬(Allocatable cap ∧ Modest [] calls) := by
  rcases holds_history hash cap calls with ⟨d', ran, holds⟩ | refused
  · exact Or.inl ⟨d', ran, holds.shows⟩
  · exact Or.inr refused

/-- A capacity and a reservation whose table cannot be allocated. -/
theorem finiteMap_run_overflow :
    (history (fun _ => 0) (2 ^ 59 + 1) [] : Except Fault (List (Reply Nat Nat) × Dict Nat Nat)) =
      .error .capacityOverflow ∧
    (history (fun _ => 0) 0 [.reserve (2 ^ 62)] :
      Except Fault (List (Reply Nat Nat) × Dict Nat Nat)) = .error .capacityOverflow := by
  constructor
  · rw [history, withCapacity, withCapacity_overflow (by decide)]
    rfl
  · have created : (withCapacity 0 : Except Fault (Dict Nat Nat)) = .ok withHasher := rfl
    have needed : ((withHasher : Dict Nat Nat).len + 2 ^ 62) % 2 ^ 64 = 2 ^ 62 := rfl
    have refused : (withHasher : Dict Nat Nat).reserve (fun _ => 0) (2 ^ 62) =
        .error .capacityOverflow := by
      rw [Dict.reserve, needed]
      exact holds_withHasher.forceRehashTo_overflow (by decide)
    rw [history, created, ok_bind, Dict.run, Dict.step, refused]
    rfl

end Dict

end Zumic.Database
