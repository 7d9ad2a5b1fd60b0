/- The skip list in shards with a counter of its length beside them (`sharded.rs`). A step is one
section of a call under the lock of a shard, or one access to the counter. -/

import Zumic.Database.SortedMap
import Zumic.Lib.Counting
import Zumic.Lib.Runs
import Zumic.Lib.Tasks

namespace Zumic.Database.Sharded

open Lib Lib.Buffer Lib.Runs

/-- What a call does next. While it counts, discounts or leaves, it holds the lock of its shard. -/
inductive Phase (K V : Type) where
  | insert (key : K) (value : V) (draws : Nat → UInt32)
  | remove (key : K)
  | counting (shard : Nat)
  | discounting (shard : Nat) (result : Option V)
  | leaving (shard : Nat) (result : Option V)
  | clearing (next : Nat)
  | returned (result : Option V)

namespace Phase

variable {K V : Type}

def holds : Phase K V → Option Nat
  | counting shard => some shard
  | discounting shard _ => some shard
  | leaving shard _ => some shard
  | _ => none

def isCounting : Phase K V → Bool
  | counting _ => true
  | _ => false

def isDiscounting : Phase K V → Bool
  | discounting _ _ => true
  | _ => false

def isReturned : Phase K V → Bool
  | returned _ => true
  | _ => false

/-- All shards are emptied, and the counter is next. -/
def isStoring (numShards : Nat) : Phase K V → Bool
  | clearing next => decide (numShards ≤ next)
  | _ => false

end Phase

/-- `total_length` is kept as an exact number, of which the word holds the remainder. -/
structure ShardedSkipList (K V : Type) where
  shards : List (SkipList K V)
  totalLength : Int
  calls : List (Phase K V)

inductive Request (K V : Type) where
  | insert (key : K) (value : V) (draws : Nat → UInt32)
  | remove (key : K)
  | clear

def Request.start {K V : Type} : Request K V → Phase K V
  | insert key value draws => .insert key value draws
  | remove key => .remove key
  | clear => .clearing 0

inductive Event (K V : Type) where
  | begin (request : Request K V)
  | advance (call : Nat)

namespace ShardedSkipList

variable {K V : Type}

def withShards [Inhabited K] [Inhabited V] (numShards : Nat) : ShardedSkipList K V :=
  ⟨List.replicate numShards .new, 0, []⟩

variable (hasher : K → UInt64) (s : ShardedSkipList K V)

def shardIndex (numShards : Nat) (key : K) : Nat := (hasher key).toNat % numShards

/-- No call holds the lock of the shard. -/
def Free (shard : Nat) : Prop := shard ∉ s.calls.filterMap Phase.holds

instance (shard : Nat) : Decidable (s.Free shard) := inferInstanceAs (Decidable (_ ∉ _))

/-- The call goes on. -/
def move (i : Nat) (phase : Phase K V) : ShardedSkipList K V :=
  { s with calls := s.calls.set i phase }

/-- The call goes on, and the shard was changed. -/
def work (i shard : Nat) (list : SkipList K V) (phase : Phase K V) : ShardedSkipList K V :=
  { s with shards := s.shards.set shard list, calls := s.calls.set i phase }

/-- The next step of a call; nothing stands for one that waits for a lock, and for one that is
over. -/
def advance [LinearOrder K] (i : Nat) : Phase K V → Option (ShardedSkipList K V)
  | .insert key value draws => do
      let shard := shardIndex hasher s.shards.length key
      let list ← s.shards[shard]?
      if s.Free shard then do
        let list' ← (list.insert key value draws).toOption
        let next := if list.length < list'.length then .counting shard else .leaving shard none
        pure (s.work i shard list' next)
      else none
  | .remove key => do
      let shard := shardIndex hasher s.shards.length key
      let list ← s.shards[shard]?
      if s.Free shard then do
        let (result, list') ← (list.remove key).toOption
        let next := if result.isSome then .discounting shard result else .leaving shard result
        pure (s.work i shard list' next)
      else none
  | .counting shard =>
      some { s.move i (.leaving shard none) with totalLength := s.totalLength + 1 }
  | .discounting shard result =>
      some { s.move i (.leaving shard result) with totalLength := s.totalLength - 1 }
  | .leaving _ result => some (s.move i (.returned result))
  | .clearing next =>
      match s.shards[next]? with
      | some list =>
          if s.Free next then do
            let list' ← list.clear.toOption
            pure (s.work i next list' (.clearing (next + 1)))
          else none
      | none => some { s.move i (.returned none) with totalLength := 0 }
  | .returned _ => none

def step [LinearOrder K] (s : ShardedSkipList K V) : Event K V → Option (ShardedSkipList K V)
  | .begin request => some { s with calls := s.calls ++ [request.start] }
  | .advance i => s.calls[i]?.bind (s.advance hasher i)

/-- The word that `len` loads. -/
def len : Nat := (s.totalLength % 2 ^ 64).toNat

/-- The lengths of the shards together. -/
def shardSum : Nat := (s.shards.map SkipList.length).sum

/-- The pair at the end of one more shard. -/
def keep (wins : K → K → Bool) (best : Option (K × V)) : Option (K × V) → Option (K × V)
  | none => best
  | some p =>
      match best with
      | none => some p
      | some q => if wins p.1 q.1 then some p else some q

/-- The best of the pairs at the ends of the shards. -/
def extreme (ends : SkipList K V → Except Fault (Option (K × V))) (wins : K → K → Bool) :
    Except Fault (Option (K × V)) :=
  s.shards.foldlM (fun best shard => do
    let candidate ← ends shard
    pure (keep wins best candidate)) none

def first [LinearOrder K] : Except Fault (Option (K × V)) :=
  s.extreme SkipList.first fun k least => k < least

def last [LinearOrder K] : Except Fault (Option (K × V)) :=
  s.extreme SkipList.last fun k greatest => greatest < k

/-- No call is in progress. -/
def Quiet : Prop := s.calls.all Phase.isReturned = true

instance : Decidable s.Quiet := inferInstanceAs (Decidable (_ = _))

/-- The store of a call of `clear`. -/
def Stores (s : ShardedSkipList K V) : Event K V → Prop
  | .begin _ => False
  | .advance i => s.calls[i]?.any (Phase.isStoring s.shards.length) = true

instance : (e : Event K V) → Decidable (s.Stores e)
  | .begin _ => inferInstanceAs (Decidable False)
  | .advance _ => inferInstanceAs (Decidable (_ = true))

/-- Where 0 is stored, all that is in the shards is still to be counted, and nothing is to be
discounted. -/
def Drained (s : ShardedSkipList K V) (e : Event K V) : Prop :=
  s.Stores e → s.shardSum = s.calls.countP Phase.isCounting ∧
    s.calls.countP Phase.isDiscounting = 0

instance (e : Event K V) : Decidable (s.Drained e) := inferInstanceAs (Decidable (_ → _))

section

/-- The best pair of a collection, if there is one. -/
def BestOf (rel : K → K → Prop) (among : K × V → Prop) : Option (K × V) → Prop
  | none => ∀ p, ¬ among p
  | some p => among p ∧ ∀ q, among q → rel p.1 q.1

variable {s} {rel : K → K → Prop}

theorem BestOf.congr {among among' : K × V → Prop} (same : ∀ p, among p ↔ among' p)
    {best : Option (K × V)} (holds : BestOf rel among best) : BestOf rel among' best := by
  have equal : among = among' := funext fun p => propext (same p)
  exact equal ▸ holds

/-- What beats some keys is at least as good as they are. -/
structure Ranks (rel : K → K → Prop) (wins : K → K → Bool) : Prop where
  refl : ∀ k, rel k k
  trans : ∀ k l m, rel k l → rel l m → rel k m
  better : ∀ k l, wins k l = true → rel k l
  worse : ∀ k l, wins k l = false → rel l k

theorem BestOf.keep {wins : K → K → Bool} (ranks : Ranks rel wins) {among among' : K × V → Prop}
    {best candidate : Option (K × V)} (holds : BestOf rel among best)
    (holds' : BestOf rel among' candidate) :
    BestOf rel (fun p => among p ∨ among' p) (keep wins best candidate) := by
  cases candidate with
  | none => exact holds.congr fun p => (or_iff_left (holds' p)).symm
  | some p =>
      cases best with
      | none => exact holds'.congr fun q => (or_iff_right (holds q)).symm
      | some q =>
          unfold ShardedSkipList.keep
          dsimp only
          split
          · rename_i wins'
            have above := ranks.better p.1 q.1 wins'
            refine ⟨.inr holds'.1, ?_⟩
            rintro r (member | member)
            · exact ranks.trans _ _ _ above (holds.2 r member)
            · exact holds'.2 r member
          · rename_i loses
            have below := ranks.worse p.1 q.1 (Bool.not_eq_true _ ▸ loses)
            refine ⟨.inl holds.1, ?_⟩
            rintro r (member | member)
            · exact holds.2 r member
            · exact ranks.trans _ _ _ below (holds'.2 r member)

theorem foldlM_keep {ends : SkipList K V → Except Fault (Option (K × V))}
    {wins : K → K → Bool} (ranks : Ranks rel wins) {content : SkipList K V → K × V → Prop}
    {shards : List (SkipList K V)}
    (each : ∀ list ∈ shards, ∃ e, ends list = .ok e ∧ BestOf rel (content list) e)
    {among : K × V → Prop} {start : Option (K × V)} (begun : BestOf rel among start) :
    ∃ best, shards.foldlM (fun best shard => do
        let candidate ← ends shard
        pure (keep wins best candidate)) start = .ok best ∧
      BestOf rel (fun p => among p ∨ ∃ list ∈ shards, content list p) best := by
  induction shards generalizing start among with
  | nil =>
      refine ⟨start, rfl, begun.congr fun p => ?_⟩
      exact (or_iff_left fun ⟨list, member, _⟩ => by cases member).symm
  | cons list shards ih =>
      obtain ⟨e, read, best⟩ := each list List.mem_cons_self
      obtain ⟨found, folded, holds⟩ :=
        ih (fun list member => each list (List.mem_cons_of_mem _ member)) (begun.keep ranks best)
      refine ⟨found, ?_, holds.congr fun p => ?_⟩
      · rw [List.foldlM_cons, read]
        exact folded
      · rw [List.exists_mem_cons_iff, or_assoc]

section

variable [LinearOrder K]

theorem bestOf_head {m : List (K × V)} (sorted : m.Pairwise fun p q => p.1 < q.1) :
    BestOf (· ≤ ·) (· ∈ m) m.head? := by
  cases m with
  | nil => exact fun _ => List.not_mem_nil
  | cons p m =>
      refine ⟨List.mem_cons_self, fun q member => ?_⟩
      rcases List.mem_cons.mp member with rfl | member
      · exact le_refl _
      · exact le_of_lt ((List.pairwise_cons.mp sorted).1 q member)

theorem bestOf_getLast {m : List (K × V)} (sorted : m.Pairwise fun p q => p.1 < q.1) :
    BestOf (· ≥ ·) (· ∈ m) m.getLast? := by
  have reversed : m.reverse.Pairwise fun p q => q.1 < p.1 := List.pairwise_reverse.mpr sorted
  rw [List.getLast?_eq_head?_reverse]
  cases shown : m.reverse with
  | nil =>
      rw [List.reverse_eq_nil_iff.mp shown]
      exact fun _ => List.not_mem_nil
  | cons p rest =>
      have same : ∀ q, q ∈ p :: rest ↔ q ∈ m := fun q => shown ▸ List.mem_reverse
      rw [shown] at reversed
      refine ⟨(same p).mp List.mem_cons_self, fun q member => ?_⟩
      rcases List.mem_cons.mp ((same q).mpr member) with rfl | member
      · exact le_refl _
      · exact le_of_lt ((List.pairwise_cons.mp reversed).1 q member)

theorem ranks_least : Ranks (· ≤ ·) fun k least : K => decide (k < least) where
  refl := le_refl
  trans _ _ _ := le_trans
  better _ _ wins := le_of_lt (of_decide_eq_true wins)
  worse _ _ loses := not_lt.mp (of_decide_eq_false loses)

theorem ranks_greatest : Ranks (· ≥ ·) fun k greatest : K => decide (greatest < k) where
  refl := le_refl
  trans _ _ _ above above' := le_trans above' above
  better _ _ wins := le_of_lt (of_decide_eq_true wins)
  worse _ _ loses := not_lt.mp (of_decide_eq_false loses)

end

end

/-- What every interleaving keeps: the shards are sorted maps of their own keys, no two calls hold
one lock, and a call that has yet to count a key has put it into its shard. -/
structure Sound [LinearOrder K] [Inhabited K] [Inhabited V] (hasher : K → UInt64)
    (s : ShardedSkipList K V) (maps : Nat → List (K × V)) : Prop where
  shows : ∀ (j : Nat) (list : SkipList K V), s.shards[j]? = some list → list.Holds (maps j)
  placed : ∀ j < s.shards.length, ∀ p ∈ maps j, shardIndex hasher s.shards.length p.1 = j
  exclusive : (s.calls.filterMap Phase.holds).Nodup
  grown : ∀ (i j : Nat), s.calls[i]? = some (.counting j) →
    j < s.shards.length ∧ maps j ≠ []

/-- By how much the counter differs from the shards, less what is still to be counted. -/
def defect : Int :=
  s.shardSum + s.calls.countP Phase.isDiscounting - s.calls.countP Phase.isCounting -
    s.totalLength

section

variable [LinearOrder K] [Inhabited K] [Inhabited V] {hasher : K → UInt64}
  {s s' : ShardedSkipList K V} {maps : Nat → List (K × V)}

theorem sound_withShards (hasher : K → UInt64) (numShards : Nat) :
    Sound hasher (withShards numShards : ShardedSkipList K V) fun _ => [] where
  shows j list read := by
    have new := List.mem_of_getElem? read
    rw [(List.mem_replicate.mp new).2]
    exact SkipList.holds_new
  placed _ _ _ member := by cases member
  exclusive := List.nodup_nil
  grown _ _ none := by cases none

theorem Sound.move (sound : Sound hasher s maps) {i : Nat} {old new : Phase K V}
    (here : s.calls[i]? = some old) (kept : new.holds = old.holds ∨ new.holds = none)
    (counted : new.isCounting = false) (total : Int) :
    Sound hasher { s.move i new with totalLength := total } maps where
  shows := sound.shows
  placed := sound.placed
  exclusive := by
    obtain ⟨rest, before, after⟩ := Tasks.filterMap_move Phase.holds here
    have distinct := before.nodup_iff.mp sound.exclusive
    refine (after new).nodup_iff.mpr ?_
    rcases kept with same | none
    · rw [same]
      exact distinct
    · rw [none]
      exact (List.sublist_append_right _ _).nodup distinct
  grown k j read := by
    rcases Tasks.getElem?_move read with ⟨-, same⟩ | ⟨-, read⟩
    · rw [← same] at counted
      cases counted
    · exact sound.grown k j read

theorem Sound.work (sound : Sound hasher s maps) {i j : Nat} {old new : Phase K V}
    {list list' : SkipList K V} {m : List (K × V)} (here : s.calls[i]? = some old)
    (unheld : old.holds = none) (read : s.shards[j]? = some list) (free : s.Free j)
    (shown : list'.Holds m) (placed : ∀ p ∈ m, shardIndex hasher s.shards.length p.1 = j)
    (locked : new.holds = some j ∨ new.holds = none)
    (counts : ∀ k, new = .counting k → k = j ∧ m ≠ []) :
    Sound hasher (s.work i j list' new) (Function.update maps j m) where
  shows k found read' := by
    unfold ShardedSkipList.work at read'
    dsimp only at read'
    rw [List.getElem?_set] at read'
    by_cases own : j = k
    · subst own
      rw [if_pos rfl] at read'
      split at read'
      · obtain rfl := Option.some.inj read'
        rw [Function.update_self]
        exact shown
      · cases read'
    · rw [if_neg own] at read'
      rw [Function.update_of_ne (Ne.symm own)]
      exact sound.shows k found read'
  placed k inside p member := by
    unfold ShardedSkipList.work at inside ⊢
    dsimp only at inside ⊢
    rw [List.length_set] at inside ⊢
    by_cases own : k = j
    · subst own
      rw [Function.update_self] at member
      exact placed p member
    · rw [Function.update_of_ne own] at member
      exact sound.placed k inside p member
  exclusive := by
    obtain ⟨rest, before, after⟩ := Tasks.filterMap_move Phase.holds here
    rw [unheld] at before
    have distinct := before.nodup_iff.mp sound.exclusive
    refine (after new).nodup_iff.mpr ?_
    rcases locked with own | none
    · rw [own]
      exact List.nodup_cons.mpr ⟨fun member => free (before.symm.subset member), distinct⟩
    · rw [none]
      exact distinct
  grown k j' read' := by
    unfold ShardedSkipList.work
    dsimp only
    rw [List.length_set]
    rcases Tasks.getElem?_move read' with ⟨-, same⟩ | ⟨-, read'⟩
    · obtain ⟨rfl, some⟩ := counts j' same.symm
      rw [Function.update_self]
      exact ⟨(List.getElem?_eq_some_iff.mp read).1, some⟩
    · have held : j' ∈ s.calls.filterMap Phase.holds :=
        List.mem_filterMap.mpr ⟨_, List.mem_of_getElem? read', rfl⟩
      have apart : j' ≠ j := fun same => free (same ▸ held)
      rw [Function.update_of_ne apart]
      exact sound.grown k j' read'

omit [LinearOrder K] [Inhabited K] [Inhabited V] in
theorem shardSum_work {i j : Nat} {list : SkipList K V} (read : s.shards[j]? = some list)
    (list' : SkipList K V) (new : Phase K V) :
    (s.work i j list' new).shardSum + list.length = s.shardSum + list'.length := by
  have here : (s.shards.map SkipList.length)[j]? = some list.length := by
    rw [List.getElem?_map, read]
    rfl
  unfold ShardedSkipList.work shardSum
  rw [List.map_set]
  exact Counting.sum_set here list'.length

/-- What a call counts for in the defect. -/
def weight (phase : Phase K V) : Int :=
  (if phase.isDiscounting then 1 else 0) - (if phase.isCounting then 1 else 0)

omit [LinearOrder K] [Inhabited K] [Inhabited V] in
theorem defect_move {i : Nat} {old new : Phase K V} (here : s.calls[i]? = some old)
    (moved : s'.calls = s.calls.set i new) :
    s'.defect = s.defect + (s'.shardSum - s.shardSum) + (weight new - weight old) -
      (s'.totalLength - s.totalLength) := by
  have counting := Tasks.countP_move Phase.isCounting new here
  have discounting := Tasks.countP_move Phase.isDiscounting new here
  unfold defect weight
  rw [moved]
  split at counting <;> split at counting <;> split at discounting <;> split at discounting <;>
    simp_all <;> omega

omit [LinearOrder K] [Inhabited K] [Inhabited V] in
theorem defect_work {i j : Nat} {old new : Phase K V} {list : SkipList K V}
    (here : s.calls[i]? = some old) (read : s.shards[j]? = some list) (list' : SkipList K V) :
    (s.work i j list' new).defect + (list.length + weight old) =
      s.defect + (list'.length + weight new) := by
  have sum := @shardSum_work _ _ s i j list read list' new
  have same : (s.work i j list' new).totalLength = s.totalLength := rfl
  rw [@defect_move _ _ s (s.work i j list' new) i old new here rfl, same]
  omega

theorem Sound.begin (sound : Sound hasher s maps) (request : Request K V) :
    Sound hasher { s with calls := s.calls ++ [request.start] } maps ∧
      defect { s with calls := s.calls ++ [request.start] } = s.defect := by
  have idle : request.start.holds = none ∧ request.start.isCounting = false ∧
      request.start.isDiscounting = false := by
    cases request <;> exact ⟨rfl, rfl, rfl⟩
  obtain ⟨unheld, counted, discounted⟩ := idle
  have held : (s.calls ++ [request.start]).filterMap Phase.holds =
      s.calls.filterMap Phase.holds := by
    rw [List.filterMap_append, List.filterMap_cons_none unheld, List.filterMap_nil, List.append_nil]
  refine ⟨⟨sound.shows, sound.placed, ?_, fun i j read => ?_⟩, ?_⟩
  · rw [held]
    exact sound.exclusive
  · rcases Tasks.getElem?_begin read with ⟨-, same⟩ | ⟨-, read⟩
    · rw [← same] at counted
      cases counted
    · exact sound.grown i j read
  · unfold defect shardSum
    simp [List.countP_append, counted, discounted]

theorem Sound.distinct (sound : Sound hasher s maps) {j : Nat} {list : SkipList K V}
    (read : s.shards[j]? = some list) : (Assoc.keys (maps j)).Nodup :=
  List.pairwise_map.mpr ((sound.shows j list read).inOrder.sorted.imp ne_of_lt)

/-- One call has gone on, without a clearing, and the defect is what it was. -/
def Even (hasher : K → UInt64) (i : Nat) (s s' : ShardedSkipList K V) : Prop :=
  ∃ (next : Phase K V) (maps' : Nat → List (K × V)), s'.calls = s.calls.set i next ∧
    (∀ n, next ≠ .clearing n) ∧ Sound hasher s' maps' ∧ s'.defect = s.defect

theorem Sound.moved (sound : Sound hasher s maps) {i : Nat} {old new : Phase K V}
    (here : s.calls[i]? = some old) (kept : new.holds = old.holds ∨ new.holds = none)
    (counted : new.isCounting = false) (other : ∀ n, new ≠ .clearing n) {total : Int}
    (even : weight new - weight old = total - s.totalLength) :
    Even hasher i s { s.move i new with totalLength := total } := by
  refine ⟨new, maps, rfl, other, sound.move here kept counted total, ?_⟩
  rw [defect_move here rfl]
  change s.defect + (s.shardSum - s.shardSum) + _ - (total - s.totalLength) = _
  omega

theorem Sound.worked (sound : Sound hasher s maps) {i j : Nat} {old new : Phase K V}
    {list list' : SkipList K V} {m : List (K × V)} (here : s.calls[i]? = some old)
    (unheld : old.holds = none) (read : s.shards[j]? = some list) (free : s.Free j)
    (shown : list'.Holds m) (placed : ∀ p ∈ m, shardIndex hasher s.shards.length p.1 = j)
    (locked : new.holds = some j) (counts : ∀ k, new = .counting k → k = j ∧ m ≠ [])
    (other : ∀ n, new ≠ .clearing n)
    (even : (list'.length : Int) + weight new = list.length + weight old) :
    Even hasher i s (s.work i j list' new) := by
  have change := @defect_work _ _ s i j old new list here read list'
  refine ⟨new, _, rfl, other,
    sound.work here unheld read free shown placed (.inl locked) counts, ?_⟩
  omega

theorem Sound.insert (sound : Sound hasher s maps) {i : Nat} {key : K} {value : V}
    {draws : Nat → UInt32} (here : s.calls[i]? = some (.insert key value draws))
    (stepped : s.advance hasher i (.insert key value draws) = some s') : Even hasher i s s' := by
  obtain ⟨list, read, stepped⟩ := Option.bind_eq_some_iff.mp stepped
  split at stepped
  · rename_i free
    have inside := (List.getElem?_eq_some_iff.mp read).1
    have shown := sound.shows _ list read
    obtain ⟨list', inserted, shown'⟩ := shown.insert key value draws
    have size := Sorted.length_insert (sound.distinct read) key value
    have placed : ∀ p ∈ Sorted.insert (maps (shardIndex hasher s.shards.length key)) key value,
        shardIndex hasher s.shards.length p.1 = shardIndex hasher s.shards.length key := by
      intro p member
      rcases Sorted.mem_insert member with rfl | member
      · rfl
      · exact sound.placed _ inside p member
    rw [← shown.length, ← shown'.length] at size
    rw [inserted] at stepped
    change some (s.work i _ list' (if list.length < list'.length then .counting _
      else .leaving _ none)) = some s' at stepped
    by_cases grew : list.length < list'.length
    · rw [if_pos grew] at stepped
      obtain rfl := Option.some.inj stepped
      refine sound.worked here rfl read free shown' placed rfl
        (fun k next => ⟨(Phase.counting.inj next).symm, ?_⟩) nofun ?_
      · unfold Sorted.insert
        simp
      · change (list'.length : Int) + -1 = list.length + 0
        split at size <;> omega
    · rw [if_neg grew] at stepped
      obtain rfl := Option.some.inj stepped
      refine sound.worked here rfl read free shown' placed rfl nofun nofun ?_
      change (list'.length : Int) + 0 = list.length + 0
      split at size <;> omega
  · cases stepped

theorem Sound.remove (sound : Sound hasher s maps) {i : Nat} {key : K}
    (here : s.calls[i]? = some (.remove key))
    (stepped : s.advance hasher i (.remove key) = some s') : Even hasher i s s' := by
  obtain ⟨list, read, stepped⟩ := Option.bind_eq_some_iff.mp stepped
  split at stepped
  · rename_i free
    have shown := sound.shows _ list read
    obtain ⟨list', removed, shown'⟩ := shown.remove key
    have size := Assoc.length_erase (sound.distinct read) key
    have placed : ∀ p ∈ Assoc.erase (maps (shardIndex hasher s.shards.length key)) key,
        shardIndex hasher s.shards.length p.1 = shardIndex hasher s.shards.length key :=
      fun p member => sound.placed _ (List.getElem?_eq_some_iff.mp read).1 p
        ((Assoc.erase_sublist _ _).subset member)
    rw [← shown.length, ← shown'.length] at size
    rw [removed] at stepped
    generalize Assoc.get (maps (shardIndex hasher s.shards.length key)) key = result at *
    change some (s.work i _ list' (if result.isSome then .discounting _ result
      else .leaving _ result)) = some s' at stepped
    by_cases found : result.isSome = true
    · rw [if_pos found] at stepped size
      obtain rfl := Option.some.inj stepped
      refine sound.worked here rfl read free shown' placed rfl nofun nofun ?_
      change (list'.length : Int) + 1 = list.length + 0
      omega
    · rw [if_neg found] at stepped size
      obtain rfl := Option.some.inj stepped
      refine sound.worked here rfl read free shown' placed rfl nofun nofun ?_
      change (list'.length : Int) + 0 = list.length + 0
      omega
  · cases stepped

theorem Sound.clear (sound : Sound hasher s maps) {i j : Nat} {list : SkipList K V}
    (here : s.calls[i]? = some (.clearing j)) (read : s.shards[j]? = some list)
    (stepped : s.advance hasher i (.clearing j) = some s') :
    ∃ maps' : Nat → List (K × V), s'.calls = s.calls.set i (.clearing (j + 1)) ∧
      Sound hasher s' maps' ∧ s'.defect ≤ s.defect := by
  unfold advance at stepped
  simp only [read] at stepped
  split at stepped
  · rename_i free
    obtain ⟨list', cleared, shown⟩ := (sound.shows j list read).clear
    rw [cleared] at stepped
    obtain rfl := Option.some.inj stepped
    have even := @defect_work _ _ s i _ _ (.clearing (j + 1)) list here read list'
    have before : weight (.clearing j : Phase K V) = 0 := rfl
    have after : weight (.clearing (j + 1) : Phase K V) = 0 := rfl
    have empty : list'.length = 0 := shown.length
    refine ⟨_, rfl, sound.work here rfl read free shown (fun p none => by cases none) (.inr rfl)
      nofun, ?_⟩
    omega
  · cases stepped

/-- A call of `clear` is in progress. -/
def Clearing (s : ShardedSkipList K V) : Prop :=
  ∃ (i : Nat) (phase : Phase K V), s.calls[i]? = some phase ∧ ∃ n, phase = .clearing n

/-- What a step does to the defect. -/
inductive Change (s : ShardedSkipList K V) (e : Event K V) (s' : ShardedSkipList K V) : Prop
  | keeps (same : s'.defect = s.defect) (clears : s'.Clearing ↔ s.Clearing ∨ e = .begin .clear)
  | empties (before : s.Clearing) (after : s'.Clearing) (less : s'.defect ≤ s.defect)
  | stores (store : s.Stores e) (before : s.Clearing)
      (rest : s'.defect = s.shardSum + s.calls.countP Phase.isDiscounting -
        s.calls.countP Phase.isCounting)

omit [LinearOrder K] [Inhabited K] [Inhabited V] in
theorem clearing_move {i : Nat} {old new : Phase K V} (here : s.calls[i]? = some old)
    (moved : s'.calls = s.calls.set i new) (other : ∀ n, old ≠ .clearing n)
    (other' : ∀ n, new ≠ .clearing n) : s'.Clearing ↔ s.Clearing := by
  unfold Clearing
  rw [moved, Tasks.exists_move new here, Tasks.exists_here here]
  refine or_congr_left (iff_of_false ?_ ?_)
  · rintro ⟨n, same⟩
    exact other' n same
  · rintro ⟨n, same⟩
    exact other n same

omit [Inhabited K] [Inhabited V] in
/-- The store leaves the counter behind by all that is in the shards or to be discounted, but for
what is still to be counted. -/
theorem defect_store {e : Event K V} (store : s.Stores e) (stepped : step hasher s e = some s') :
    s.Clearing ∧ s'.defect = s.shardSum + s.calls.countP Phase.isDiscounting -
      s.calls.countP Phase.isCounting := by
  cases e with
  | begin request => exact store.elim
  | advance i =>
      obtain ⟨phase, here, stepped⟩ := Option.bind_eq_some_iff.mp stepped
      rw [Stores, here] at store
      cases phase with
      | clearing n =>
          have past : s.shards[n]? = none :=
            List.getElem?_eq_none_iff.mpr (of_decide_eq_true store)
          unfold advance at stepped
          simp only [past] at stepped
          obtain rfl := Option.some.inj stepped
          refine ⟨⟨i, _, here, n, rfl⟩, ?_⟩
          rw [defect_move here rfl]
          have before : weight (.clearing n : Phase K V) = 0 := rfl
          have after : weight (.returned none : Phase K V) = 0 := rfl
          change s.defect + (s.shardSum - s.shardSum) + _ - (0 - s.totalLength) = _
          unfold defect
          omega
      | _ => cases store

theorem Sound.step (sound : Sound hasher s maps) {e : Event K V}
    (stepped : step hasher s e = some s') :
    ∃ maps' : Nat → List (K × V), Sound hasher s' maps' ∧ Change s e s' := by
  cases e with
  | begin request =>
      obtain rfl := Option.some.inj stepped
      obtain ⟨sound', same⟩ := sound.begin request
      refine ⟨maps, sound', .keeps same ?_⟩
      constructor
      · rintro ⟨i, phase, read, n, rfl⟩
        rcases Tasks.getElem?_begin read with ⟨-, same⟩ | ⟨-, read⟩
        · cases request with
          | insert key value draws => cases same
          | remove key => cases same
          | clear => exact .inr rfl
        · exact .inl ⟨i, _, read, n, rfl⟩
      · rintro (⟨i, phase, read, clears⟩ | same)
        · exact ⟨i, phase, Tasks.getElem?_begin_old _ read, clears⟩
        · cases same
          exact ⟨s.calls.length, _, List.getElem?_concat_length, 0, rfl⟩
  | advance i =>
      obtain ⟨phase, here, stepped⟩ := Option.bind_eq_some_iff.mp stepped
      have keeps : Even hasher i s s' → (∀ n, phase ≠ .clearing n) →
          ∃ maps' : Nat → List (K × V), Sound hasher s' maps' ∧ Change s (.advance i) s' := by
        rintro ⟨next, maps', moved, other', sound', even⟩ other
        refine ⟨maps', sound', .keeps even ?_⟩
        rw [clearing_move here moved other other']
        exact (or_iff_left nofun).symm
      cases phase with
      | insert key value draws => exact keeps (sound.insert here stepped) nofun
      | remove key => exact keeps (sound.remove here stepped) nofun
      | counting j =>
          obtain rfl := Option.some.inj stepped
          refine keeps (@Sound.moved _ _ _ _ _ _ _ _ sound i _ (.leaving j none) here (.inl rfl)
            rfl nofun _ ?_) nofun
          change (0 : Int) - -1 = s.totalLength + 1 - s.totalLength
          omega
      | discounting j result =>
          obtain rfl := Option.some.inj stepped
          refine keeps (@Sound.moved _ _ _ _ _ _ _ _ sound i _ (.leaving j result) here (.inl rfl)
            rfl nofun _ ?_) nofun
          change (0 : Int) - 1 = s.totalLength - 1 - s.totalLength
          omega
      | leaving j result =>
          obtain rfl := Option.some.inj stepped
          refine keeps (@Sound.moved _ _ _ _ _ _ _ _ sound i _ (.returned result) here (.inr rfl)
            rfl nofun _ ?_) nofun
          exact (sub_self s.totalLength).symm
      | clearing n =>
          have before : s.Clearing := ⟨i, _, here, n, rfl⟩
          cases read : s.shards[n]? with
          | some list =>
              obtain ⟨maps', moved, sound', less⟩ := sound.clear here read stepped
              have after : s'.Clearing := by
                refine ⟨i, _, ?_, n + 1, rfl⟩
                rw [moved]
                exact List.getElem?_set_self (List.getElem?_eq_some_iff.mp here).1
              exact ⟨maps', sound', .empties before after less⟩
          | none =>
              have store : s.Stores (.advance i) := by
                rw [Stores, here]
                exact decide_eq_true (List.getElem?_eq_none_iff.mp read)
              have rest := defect_store store (Option.bind_eq_some_iff.mpr ⟨_, here, stepped⟩)
              unfold advance at stepped
              simp only [read] at stepped
              obtain rfl := Option.some.inj stepped
              exact ⟨maps, sound.move here (.inr rfl) rfl _, .stores store before rest.2⟩
      | returned result => cases stepped

/-- The counter is behind the shards only while a call of `clear` empties them, and never ahead of
them. -/
structure Balanced (s : ShardedSkipList K V) : Prop where
  notAhead : s.defect ≤ 0
  exact : ¬ s.Clearing → s.defect = 0

omit [LinearOrder K] [Inhabited K] [Inhabited V] in
theorem Change.balanced {e : Event K V} (change : Change s e s') (balanced : s.Balanced)
    (drained : s.Drained e) : s'.Balanced := by
  cases change with
  | keeps same clears =>
      refine ⟨same ▸ balanced.notAhead, fun none => ?_⟩
      rw [same]
      exact balanced.exact fun here => none (clears.mpr (.inl here))
  | empties before after less => exact ⟨less.trans balanced.notAhead, fun none => absurd after none⟩
  | stores store before rest =>
      obtain ⟨sum, none⟩ := drained store
      rw [sum, none] at rest
      have even : s'.defect = 0 := by omega
      exact ⟨Int.le_of_eq even, fun _ => even⟩

/-- Every call that has yet to count a key has a shard of its own that is not empty. -/
theorem Sound.counting_le (sound : Sound hasher s maps) :
    s.calls.countP Phase.isCounting ≤ s.shardSum := by
  have locked : ∀ phase ∈ s.calls.filter Phase.isCounting, (Phase.holds phase).isSome := by
    intro phase member
    have counts := (List.mem_filter.mp member).2
    cases phase with
    | counting j => rfl
    | _ => cases counts
  have part : (s.calls.filter Phase.isCounting).Sublist s.calls := List.filter_sublist
  have distinct := (part.filterMap Phase.holds).nodup sound.exclusive
  rw [List.countP_eq_length_filter, ← List.filterMap_length_eq_length.mpr locked]
  refine Counting.length_le_sum distinct fun j locked' => ?_
  obtain ⟨phase, found, held⟩ := List.mem_filterMap.mp locked'
  obtain ⟨member, counts⟩ := List.mem_filter.mp found
  cases phase with
  | counting k =>
      obtain rfl := Option.some.inj held
      obtain ⟨i, read⟩ := List.mem_iff_getElem?.mp member
      obtain ⟨there, some⟩ := sound.grown i k read
      refine ⟨s.shards[k].length, ?_, ?_⟩
      · rw [List.getElem?_map, List.getElem?_eq_getElem there]
        rfl
      · rw [(sound.shows k _ (List.getElem?_eq_getElem there)).length]
        exact List.length_pos_of_ne_nil some
  | _ => cases counts

theorem Sound.totalLength_nonneg (sound : Sound hasher s maps) (balanced : s.Balanced) :
    0 ≤ s.totalLength := by
  have held := sound.counting_le
  have even := balanced.notAhead
  unfold defect at even
  omega

omit [LinearOrder K] [Inhabited K] [Inhabited V] in
/-- When no call is in progress, the defect is between the counter and the shards alone. -/
theorem Quiet.defect (quiet : s.Quiet) :
    ¬ s.Clearing ∧ s.defect = s.shardSum - s.totalLength := by
  have ended := List.all_eq_true.mp quiet
  have none : ∀ p : Phase K V → Bool, (∀ result, p (.returned result) = false) →
      s.calls.countP p = 0 := by
    intro p not
    refine List.countP_eq_zero.mpr fun phase member => ?_
    have returned := ended phase member
    cases phase with
    | returned result => exact Bool.not_eq_true _ ▸ not result
    | _ => cases returned
  constructor
  · rintro ⟨i, phase, read, n, rfl⟩
    cases ended _ (List.mem_of_getElem? read)
  · unfold ShardedSkipList.defect
    rw [none Phase.isDiscounting fun _ => rfl, none Phase.isCounting fun _ => rfl]
    omega

/-- A pair is in one of the shards. -/
def Stored (s : ShardedSkipList K V) (p : K × V) : Prop :=
  ∃ list ∈ s.shards, ∃ m, list.iter = .ok m ∧ p ∈ m

theorem Sound.extreme (sound : Sound hasher s maps) {rel : K → K → Prop} {wins : K → K → Bool}
    (ranks : Ranks rel wins) {ends : SkipList K V → Except Fault (Option (K × V))}
    (each : ∀ (list : SkipList K V) (m : List (K × V)), list.Holds m →
      ∃ e, ends list = .ok e ∧ BestOf rel (· ∈ m) e) :
    ∃ best, s.extreme ends wins = .ok best ∧ BestOf rel s.Stored best := by
  have start : BestOf rel (fun _ : K × V => False) none := fun _ => id
  have each' : ∀ list ∈ s.shards, ∃ e, ends list = .ok e ∧
      BestOf rel (fun p => ∃ m, list.iter = .ok m ∧ p ∈ m) e := by
    intro list member
    obtain ⟨j, read⟩ := List.mem_iff_getElem?.mp member
    have shown := sound.shows j list read
    obtain ⟨e, found, best⟩ := each list _ shown
    refine ⟨e, found, best.congr fun p => ?_⟩
    rw [shown.inOrder.iter]
    constructor
    · exact fun here => ⟨_, rfl, here⟩
    · rintro ⟨m, same, here⟩
      exact Except.ok.inj same ▸ here
  obtain ⟨best, folded, holds⟩ := foldlM_keep ranks each' start
  exact ⟨best, folded, holds.congr fun p => or_iff_right id⟩

/-- What is promised of the length, the places of the keys and the ends. -/
structure Meets (hasher : K → UInt64) (s : ShardedSkipList K V) : Prop where
  notNegative : 0 ≤ s.totalLength
  total : s.Quiet → s.totalLength = s.shardSum
  length : s.Quiet → s.shardSum < 2 ^ 64 → s.len = s.shardSum
  placed : ∀ (j : Nat) (list : SkipList K V), s.shards[j]? = some list →
    ∃ m, list.iter = .ok m ∧ ∀ p ∈ m, shardIndex hasher s.shards.length p.1 = j
  first : ∃ least, s.first = .ok least ∧ BestOf (· ≤ ·) s.Stored least
  last : ∃ greatest, s.last = .ok greatest ∧ BestOf (· ≥ ·) s.Stored greatest

theorem Sound.meets (sound : Sound hasher s maps) (balanced : s.Balanced) : s.Meets hasher := by
  have total : s.Quiet → s.totalLength = s.shardSum := by
    intro quiet
    obtain ⟨none, even⟩ := quiet.defect
    rw [balanced.exact none] at even
    omega
  refine ⟨sound.totalLength_nonneg balanced, total, fun quiet fits => ?_, fun j list read => ?_,
    ?_, ?_⟩
  · rw [len, total quiet]
    omega
  · refine ⟨maps j, (sound.shows j list read).inOrder.iter, ?_⟩
    exact sound.placed j (List.getElem?_eq_some_iff.mp read).1
  · refine sound.extreme ranks_least fun list m shown => ?_
    obtain ⟨cells, shape, rfl⟩ := shown
    exact ⟨_, shape.first, bestOf_head (SkipList.Holds.inOrder ⟨cells, shape, rfl⟩).sorted⟩
  · refine sound.extreme ranks_greatest fun list m shown => ?_
    obtain ⟨cells, shape, rfl⟩ := shown
    exact ⟨_, shape.last, bestOf_getLast (SkipList.Holds.inOrder ⟨cells, shape, rfl⟩).sorted⟩

omit [LinearOrder K] in
theorem balanced_withShards (numShards : Nat) :
    (withShards numShards : ShardedSkipList K V).Balanced := by
  have even : (withShards numShards : ShardedSkipList K V).defect = 0 := by
    unfold defect shardSum withShards
    simp [SkipList.new]
  exact ⟨Int.le_of_eq even, fun _ => even⟩

/-- Whatever the calls and however they interleave: if 0 is stored only where nothing was counted
that is still in the shards, the counter is never below 0 and is the length of all shards whenever
no call is in progress, every key is in its shard, and the ends are those of all shards. -/
theorem interleaved_meets (hasher : K → UInt64) (numShards : Nat) (events : List (Event K V))
    (drained : Along (step hasher) Drained (withShards numShards) events) :
    ∀ n s, run (step hasher) (withShards numShards) (events.take n) = some s →
      s.Meets hasher := by
  refine Runs.always_iff_along.mpr ?_
  have start : ∃ maps, Sound hasher (withShards numShards : ShardedSkipList K V) maps ∧
      (withShards numShards : ShardedSkipList K V).Balanced :=
    ⟨_, sound_withShards hasher numShards, balanced_withShards numShards⟩
  have keeps : ∀ (s : ShardedSkipList K V) (e : Event K V) (s' : ShardedSkipList K V),
      (∃ maps, Sound hasher s maps ∧ s.Balanced) → s.Drained e → step hasher s e = some s' →
      ∃ maps, Sound hasher s' maps ∧ s'.Balanced := by
    rintro s e s' ⟨maps, sound, balanced⟩ allowed stepped
    obtain ⟨maps', sound', change⟩ := sound.step stepped
    exact ⟨maps', sound', change.balanced balanced allowed⟩
  constructor
  · obtain ⟨maps, sound, balanced⟩ := start
    exact sound.meets balanced
  · refine Runs.along_of_kept keeps (fun s e held allowed s' stepped => ?_) start drained
    obtain ⟨maps, sound, balanced⟩ := keeps s e s' held allowed stepped
    exact sound.meets balanced

/-- One shard takes all keys. -/
def oneHash (_ : Nat) : UInt64 := 0

/-- A key is inserted and the list cleared afterwards. -/
def inTurn : List (Event Nat Nat) :=
  [.begin (.insert 7 1 fun _ => 0), .advance 0, .advance 0, .advance 0,
    .begin .clear, .advance 1, .advance 1]

theorem inTurn_meets : Along (step oneHash) Drained (withShards 1) inTurn ∧
    ∀ n s, run (step oneHash) (withShards 1) (inTurn.take n) = some s → s.Meets oneHash := by
  have drained : Along (step oneHash) Drained (withShards 1) inTurn := by decide +kernel
  exact ⟨drained, interleaved_meets oneHash 1 inTurn drained⟩

/-- A key is inserted between the last section of `clear` and its store, and removed later. -/
def between : List (Event Nat Nat) :=
  [.begin .clear, .advance 0, .begin (.insert 7 1 fun _ => 0), .advance 1, .advance 1, .advance 1,
    .advance 0]

def removal : List (Event Nat Nat) :=
  [.begin (.remove 7), .advance 2, .advance 2, .advance 2]

theorem between_loses :
    ((run (step oneHash) (withShards 1) between).map fun s =>
      (decide s.Quiet, s.len, s.shardSum)) = some (true, 0, 1) ∧
    ((run (step oneHash) (withShards 1) (between ++ removal)).map fun s =>
      (decide s.Quiet, s.totalLength, s.len)) = some (true, -1, 2 ^ 64 - 1) := by
  decide +kernel

/-- A last store of 0 beside keys that were counted before it leaves the counter too small for
good. -/
theorem store_loses (sound : Sound hasher s maps) {e : Event K V} (store : s.Stores e)
    (undrained : ¬ s.Drained e) (stepped : step hasher s e = some s') (noOther : ¬ s'.Clearing)
    {events : List (Event K V)} (noMore : .begin .clear ∉ events) {s'' : ShardedSkipList K V}
    (ran : run (step hasher) s' events = some s'') (quiet : s''.Quiet) :
    s''.totalLength < s''.shardSum := by
  obtain ⟨maps', sound', -⟩ := sound.step stepped
  have behind : 0 < s'.defect := by
    rw [(defect_store store stepped).2]
    have held := sound.counting_le
    have some : ¬ (s.shardSum = s.calls.countP Phase.isCounting ∧
        s.calls.countP Phase.isDiscounting = 0) := fun both => undrained fun _ => both
    omega
  have later : 0 < s''.defect := by
    clear stepped store undrained
    induction events generalizing s' maps' with
    | nil =>
        obtain rfl := Option.some.inj ran
        exact behind
    | cons e' events ih =>
        obtain ⟨next, stepped, ran⟩ := Option.bind_eq_some_iff.mp ran
        obtain ⟨maps'', sound'', change⟩ := sound'.step stepped
        have other : e' ≠ .begin .clear := fun same => noMore (same ▸ List.mem_cons_self)
        cases change with
        | keeps same clears =>
            refine ih (fun clearing => ?_) (fun member => noMore (List.mem_cons_of_mem _ member))
              ran maps'' sound'' (same ▸ behind)
            exact (clears.mp clearing).elim noOther other
        | empties before after less => exact absurd before noOther
        | stores store before rest => exact absurd before noOther
  rw [quiet.defect.2] at later
  omega

end

end ShardedSkipList

end Zumic.Database.Sharded
