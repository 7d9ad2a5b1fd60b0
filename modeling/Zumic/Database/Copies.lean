/- Equality, copies and the sequence form of the skip list and of the dictionary
(`skiplist_base.rs`, `dict_base.rs`). -/

import Zumic.Database.DictMap
import Zumic.Database.SortedMap

namespace Zumic.Database

open Lib Lib.Buffer

namespace SkipList

variable {K V E : Type} [LinearOrder K]

/-- Both lowest levels, side by side. -/
def eqLoop [BEq V] (s other : SkipList K V) :
    Nat → Option Addr → Option Addr → Except Fault Bool
  | 0, _, _ => .error .endless
  | fuel + 1, a, b => do
      match ← s.nextItem a, ← other.nextItem b with
      | some (x, a), some (y, b) =>
          if x.1 ≠ y.1 ∨ (x.2 != y.2) = true then pure false else eqLoop s other fuel a b
      | none, none => pure true
      | _, _ => pure false

def eq [BEq V] (s other : SkipList K V) : Except Fault Bool :=
  if s.length ≠ other.length then pure false
  else do
    let a ← s.memory.forward s.head 0
    let b ← other.memory.forward other.head 0
    eqLoop s other (s.length + 1) a b

/-- Each pair is inserted, with draws of its own for the level of its node. -/
def insertAll :
    SkipList K V → List (K × V) → (Nat → Nat → UInt32) → Except Fault (SkipList K V)
  | s, [], _ => pure s
  | s, (k, v) :: items, draws => do
      let s ← s.insert k v (draws 0)
      insertAll s items fun n => draws (n + 1)

def serialize (s : SkipList K V) : Except Fault (List (K × V)) := s.iter

variable [Inhabited K] [Inhabited V]

def clone (s : SkipList K V) (draws : Nat → Nat → UInt32) : Except Fault (SkipList K V) := do
  let items ← s.iter
  insertAll new items draws

/-- The whole vector is read before a pair is inserted. -/
def deserialize (draws : Nat → Nat → UInt32) :
    Except E (List (K × V)) → Except Fault (Except E (SkipList K V))
  | .error e => pure (.error e)
  | .ok vec => do
      let list ← insertAll new vec draws
      pure (.ok list)

variable {s s' : SkipList K V} {m m' : List (K × V)}

theorem Shape.eqLoop [BEq V] {A R A' R' : List (Cell K V)} (shape : s.Shape (A ++ R))
    (shape' : s'.Shape (A' ++ R')) {fuel : Nat} (enough : R.length < fuel) :
    SkipList.eqLoop s s' fuel (R.map Cell.addr).head? (R'.map Cell.addr).head? =
      .ok (R.map itemOf == R'.map itemOf) := by
  induction R generalizing A A' R' fuel with
  | nil =>
      obtain ⟨fuel, rfl⟩ := Nat.exists_eq_succ_of_ne_zero (Nat.ne_of_gt enough)
      cases R' with
      | nil => rfl
      | cons y R' =>
          rw [SkipList.eqLoop, List.map_cons, List.head?_cons, shape'.nextItem]
          rfl
  | cons x R ih =>
      obtain ⟨fuel, rfl⟩ := Nat.exists_eq_succ_of_ne_zero (Nat.ne_of_gt (Nat.zero_lt_of_lt enough))
      have first : (((x :: R).map Cell.addr).head?) = some x.addr := rfl
      rw [SkipList.eqLoop, first, shape.nextItem]
      cases R' with
      | nil => rfl
      | cons y R' =>
          have further : s.Shape ((A ++ [x]) ++ R) := by rwa [List.append_assoc]
          have further' : s'.Shape ((A' ++ [y]) ++ R') := by rwa [List.append_assoc]
          have rest := ih further further' (Nat.lt_of_succ_lt_succ enough)
          have pairs : ((x :: R).map itemOf == (y :: R').map itemOf) =
              (decide ((itemOf x).1 = (itemOf y).1) && (itemOf x).2 == (itemOf y).2 &&
                R.map itemOf == R'.map itemOf) := rfl
          rw [List.map_cons, List.head?_cons, shape'.nextItem, pairs]
          simp only [ok_bind, rest]
          by_cases same : (itemOf x).1 = (itemOf y).1
          · cases alike : (itemOf x).2 == (itemOf y).2 with
            | true => simp [same, alike, bne]
            | false => simp [same, alike, bne]; rfl
          · simp [same]
            rfl

theorem Holds.eq [BEq V] (holds : s.Holds m) (holds' : s'.Holds m') :
    SkipList.eq s s' = .ok (m == m') := by
  obtain ⟨cells, shape, rfl⟩ := holds
  obtain ⟨cells', shape', rfl⟩ := holds'
  rw [SkipList.eq]
  split
  · rename_i other
    have unlike : (cells.map itemOf == cells'.map itemOf) = false := by
      refine Bool.eq_false_iff.mpr fun same => other ?_
      have lengths := List.length_eq_of_beq same
      rwa [List.length_map, List.length_map, ← shape.length, ← shape'.length] at lengths
    rw [unlike]
    rfl
  · rw [shape.forward_head, ok_bind, shape'.forward_head, ok_bind]
    exact @Shape.eqLoop K V _ _ _ s s' _ [] cells [] cells' shape shape' _
      (Nat.lt_succ_of_le (Nat.le_of_eq shape.length.symm))

theorem Holds.insertAll (holds : s.Holds m) (items : List (K × V)) (draws : Nat → Nat → UInt32) :
    ∃ s', SkipList.insertAll s items draws = .ok s' ∧
      s'.Holds (items.foldl (fun m p => Sorted.insert m p.1 p.2) m) := by
  induction items generalizing s m draws with
  | nil => exact ⟨s, rfl, holds⟩
  | cons p items ih =>
      obtain ⟨s₁, inserted, holds₁⟩ := holds.insert p.1 p.2 (draws 0)
      obtain ⟨s₂, done, holds₂⟩ := ih holds₁ fun n => draws (n + 1)
      refine ⟨s₂, ?_, holds₂⟩
      rw [SkipList.insertAll, inserted, ok_bind, done]

/-- Lists of any two histories, with whatever levels, are equal when they hold equal pairs. -/
theorem eq_histories [BEq V] (calls calls' : List (Call K V)) :
    ∃ s s', (new : SkipList K V).run calls = .ok ((sortedRun [] calls).1, s) ∧
      (new : SkipList K V).run calls' = .ok ((sortedRun [] calls').1, s') ∧
      eq s s' = .ok ((sortedRun [] calls).2 == (sortedRun [] calls').2) := by
  obtain ⟨s, ran, holds⟩ := holds_new.run calls
  obtain ⟨s', ran', holds'⟩ := holds_new.run calls'
  exact ⟨s, s', ran, ran', holds.eq holds'⟩

/-- After any history the clone, and what is read back from the sequence form, is a list in order of
the same pairs, whatever levels its nodes get. -/
theorem copies_run [BEq V] (calls : List (Call K V)) (draws : Nat → Nat → UInt32) :
    ∃ s copy items, (new : SkipList K V).run calls = .ok ((sortedRun [] calls).1, s) ∧
      s.clone draws = .ok copy ∧ s.serialize = .ok items ∧
      deserialize draws (.ok items : Except E _) = .ok (.ok copy) ∧
      copy.InOrder (sortedRun [] calls).2 ∧
      eq s copy = .ok ((sortedRun [] calls).2 == (sortedRun [] calls).2) := by
  obtain ⟨s, ran, holds⟩ := holds_new.run calls
  have listed := holds.inOrder.iter
  obtain ⟨copy, done, holds'⟩ := holds_new.insertAll (sortedRun [] calls).2 draws
  rw [Sorted.foldl_insert (m := []) holds.inOrder.sorted] at holds'
  refine ⟨s, copy, _, ran, ?_, listed, ?_, holds'.inOrder, holds.eq holds'⟩
  · rw [clone, listed, ok_bind, done]
  · rw [deserialize, done]
    rfl

end SkipList

namespace Dict

variable {K V E : Type} [DecidableEq K]

/-- The other dictionary hashes with a function of its own. -/
def eq [BEq V] (hash' : K → UInt64) (d other : Dict K V) : Except Fault Bool :=
  if d.len ≠ other.len then pure false
  else do
    let items ← d.pairs
    items.allM fun p => do
      let found ← other.get hash' p.1
      pure (found == some p.2)

/-- The announced number of elements, and the elements. -/
def serialize (d : Dict K V) : Except Fault (Nat × List (K × V)) := do
  let items ← d.pairs
  pure (d.len, items)

/-- The first element that cannot be read ends the loop. -/
def visitSeq (hash : K → UInt64) :
    Dict K V → List (Except E (K × V)) → Except Fault (Except E (Dict K V))
  | d, [] => pure (.ok d)
  | _, .error e :: _ => pure (.error e)
  | d, .ok p :: seq => do
      let (_, d) ← d.insert hash p.1 p.2
      visitSeq hash d seq

def deserialize (hash : K → UInt64) (seq : List (Except E (K × V))) :
    Except Fault (Except E (Dict K V)) := visitSeq hash withHasher seq

variable {hash hash' : K → UInt64} {d d' : Dict K V} {m m' : List (K × V)}

theorem Holds.eq [BEq V] (holds : d.Holds hash m) (holds' : d'.Holds hash' m') :
    ∃ same, Dict.eq hash' d d' = .ok same ∧
      (same = true ↔ ∀ k, (Assoc.get m' k == Assoc.get m k) = true) := by
  have found : ∀ items : List (K × V), (items.allM fun p => do
      let found ← d'.get hash' p.1
      pure (found == some p.2)) = Except.ok (items.all fun p => Assoc.get m' p.1 == some p.2) := by
    intro items
    induction items with
    | nil => rfl
    | cons p items ih =>
        rw [List.allM, holds'.get, List.all_cons]
        simp only [ok_bind, ih]
        cases Assoc.get m' p.1 == some p.2 <;> rfl
  have listed := holds.pairs
  rw [Dict.eq, holds.len, holds'.len]
  split
  · rename_i other
    refine ⟨false, rfl, by simp, fun agree => absurd ?_ other⟩
    exact Assoc.length_eq_of_agree holds.distinct holds'.distinct agree
  · rename_i size
    rw [listed, ok_bind, found]
    refine ⟨_, rfl, ?_⟩
    rw [holds.shown.all_eq, List.all_eq_true]
    constructor
    · exact Assoc.agree_of_found holds.distinct (Decidable.not_not.mp size)
    · intro agree p member
      rw [← Assoc.get_of_mem holds.distinct member]
      exact agree p.1

theorem Holds.visitSeq (holds : d.Holds hash m) {items : List (K × V)}
    (few : m.length + items.length ≤ 2 ^ 59) :
    ∃ d', d'.Holds hash (items.foldl (fun m p => Assoc.insert m p.1 p.2) m) ∧
      ∀ seq : List (Except E (K × V)),
        Dict.visitSeq hash d (items.map .ok ++ seq) = Dict.visitSeq hash d' seq := by
  induction items generalizing d m with
  | nil => exact ⟨d, holds, fun _ => rfl⟩
  | cons p items ih =>
      rw [List.length_cons] at few
      have begun := holds.begun.resolve_right fun refused => refused.2 (by omega)
      obtain ⟨d₁, inserted, holds₁⟩ := begun.insert p.1 p.2
      have few₁ : (Assoc.insert m p.1 p.2).length + items.length ≤ 2 ^ 59 := by
        rw [Assoc.length_insert]
        split <;> omega
      obtain ⟨d₂, holds₂, later⟩ := ih holds₁ few₁
      refine ⟨d₂, holds₂, fun seq => ?_⟩
      rw [List.map_cons, List.cons_append, Dict.visitSeq, inserted, ok_bind]
      exact later seq

/-- Dictionaries that any two histories leave, with capacities and hash functions of their own, are
equal exactly when they agree at every key. -/
theorem eq_histories_iff [BEq V] {hash hash' : K → UInt64} {cap cap' : Nat}
    {calls calls' : List (Call K V)} {replies replies' : List (Reply K V)}
    (ran : history hash cap calls = .ok (replies, d))
    (ran' : history hash' cap' calls' = .ok (replies', d')) :
    ∃ same, eq hash' d d' = .ok same ∧ (same = true ↔ ∀ k,
      (Assoc.get (mapRun [] calls').2 k == Assoc.get (mapRun [] calls).2 k) = true) :=
  (holds_of_history ran).eq (holds_of_history ran')

/-- A dictionary that has begun to shrink, and one in which both keys collide. -/
theorem eq_histories_shrinking : ∃ (replies replies' : List (Reply Nat Nat)) (d d' : Dict Nat Nat),
    history UInt64.ofNat 16 [.insert 1 10, .insert 2 20, .insert 3 30, .remove 3] =
      .ok (replies, d) ∧ d.isRehashing = true ∧
    history (fun _ => 0) 0 [.insert 2 20, .insert 1 10] = .ok (replies', d') ∧
    eq (fun _ => 0) d d' = .ok true := by
  have left : ∃ (replies : List (Reply Nat Nat)) (d : Dict Nat Nat), history UInt64.ofNat 16
      [.insert 1 10, .insert 2 20, .insert 3 30, .remove 3] = .ok (replies, d) ∧
      d.isRehashing = true := ⟨_, _, rfl, rfl⟩
  have left' : ∃ (replies : List (Reply Nat Nat)) (d : Dict Nat Nat),
      history (fun _ => 0) 0 [.insert 2 20, .insert 1 10] = .ok (replies, d) := ⟨_, _, rfl⟩
  obtain ⟨replies, d, ran, rehashing⟩ := left
  obtain ⟨replies', d', ran'⟩ := left'
  obtain ⟨same, compared, agree⟩ := eq_histories_iff ran ran'
  refine ⟨replies, replies', d, d', ran, rehashing, ran', ?_⟩
  rw [compared, agree.mpr fun k => ?_]
  show (Assoc.get [(2, 20), (1, 10)] k == Assoc.get [(1, 10), (2, 20)] k) = true
  by_cases one : 1 = k
  · subst one
    rfl
  · by_cases two : 2 = k
    · subst two
      rfl
    · simp [Assoc.get, one, two]

/-- What is written of the dictionary that a history leaves is read back as the same map under every
hash function; a sequence that breaks off gives its error and no dictionary. -/
theorem roundTrip_run {hash : K → UInt64} {cap : Nat} {calls : List (Call K V)}
    {replies : List (Reply K V)} (ran : history hash cap calls = .ok (replies, d))
    (few : d.len ≤ 2 ^ 59) (hash' : K → UInt64) :
    ∃ items d', d.serialize = .ok (items.length, items) ∧
      deserialize hash' (items.map (.ok : _ → Except E _)) = .ok (.ok d') ∧
      d'.Shows hash' (mapRun [] calls).2 ∧ ∀ n (e : E) rest,
        deserialize hash' ((items.take n).map .ok ++ .error e :: rest) = .ok (.error e) := by
  have holds := holds_of_history ran
  have start : (withHasher : Dict K V).Holds hash' [] := holds_withHasher
  have size : d.len = (d.ht0.items ++ d.ht1.items).length := by
    rw [holds.len, holds.shown.length_eq]
  have distinct : (Assoc.keys ([] ++ (d.ht0.items ++ d.ht1.items))).Nodup :=
    (holds.shown.map Prod.fst).nodup_iff.mpr holds.distinct
  have room : ([] : List (K × V)).length + (d.ht0.items ++ d.ht1.items).length ≤ 2 ^ 59 := by
    rw [List.length_nil, ← size]
    omega
  obtain ⟨d', holds', read⟩ := start.visitSeq (E := E) room
  rw [Assoc.foldl_insert distinct, List.nil_append] at holds'
  refine ⟨d.ht0.items ++ d.ht1.items, d', ?_, ?_, (holds'.perm holds.shown).shows,
    fun n e rest => ?_⟩
  · rw [serialize, holds.pairs, ok_bind, size]
    rfl
  · have whole := read []
    rwa [List.append_nil] at whole
  · have room' : ([] : List (K × V)).length +
        ((d.ht0.items ++ d.ht1.items).take n).length ≤ 2 ^ 59 := by
      rw [List.length_take]
      omega
    obtain ⟨d₁, -, cut⟩ := start.visitSeq (E := E) room'
    exact cut _

/-- Three entries in the middle of a shrinking, and a sequence that breaks off after two of them. -/
theorem roundTrip_run_shrinking : ∃ (replies : List (Reply Nat Nat)) (d d' : Dict Nat Nat),
    history UInt64.ofNat 16 [.insert 1 10, .insert 2 20, .insert 3 30, .insert 4 40, .remove 3] =
      .ok (replies, d) ∧ d.isRehashing = true ∧
    d.serialize = .ok (3, [(1, 10), (2, 20), (4, 40)]) ∧
    deserialize (fun _ => 0) ([(1, 10), (2, 20), (4, 40)].map (.ok : _ → Except Unit _)) =
      .ok (.ok d') ∧ d'.Shows (fun _ => 0) [(1, 10), (2, 20), (4, 40)] ∧
    deserialize (fun _ => 0) [.ok (1, 10), .ok (2, 20), .error ()] =
      .ok (.error () : Except Unit (Dict Nat Nat)) := by
  have left : ∃ (replies : List (Reply Nat Nat)) (d : Dict Nat Nat), history UInt64.ofNat 16
      [.insert 1 10, .insert 2 20, .insert 3 30, .insert 4 40, .remove 3] = .ok (replies, d) ∧
      d.isRehashing = true ∧ d.len ≤ 2 ^ 59 ∧
      d.serialize = .ok (3, [(1, 10), (2, 20), (4, 40)]) :=
    ⟨_, _, rfl, rfl, by decide, rfl⟩
  obtain ⟨replies, d, ran, rehashing, few, listed⟩ := left
  obtain ⟨items, d', written, read, shows', broken⟩ := roundTrip_run (E := Unit) ran few fun _ => 0
  obtain ⟨-, rfl⟩ := Prod.mk.inj (Except.ok.inj (listed.symm.trans written))
  exact ⟨replies, d, d', ran, rehashing, listed, read, shows', broken 2 () []⟩

end Dict

end Zumic.Database
