/- Best-first search for the nearest entries: a queue of entries and of nodes that open into further
items, and a bounded list of results that prunes it. Equal keys are taken in any order. -/

import Mathlib.Algebra.GroupWithZero.Nat
import Mathlib.Data.List.Sort
import Mathlib.Algebra.Order.BigOperators.Group.List
import Mathlib.Algebra.Order.Group.Nat
import Zumic.Lib.Heap

namespace Zumic.Lib.BestFirst

/-- What is searched. Opening a node makes the rest of the search smaller. -/
structure Space (ι α β : Type) where
  opened : ι → α ⊕ List ι
  key : ι → β
  dist : α → β
  size : ι → Nat
  key_entry : ∀ q e, opened q = .inl e → key q = dist e
  size_pos : ∀ q, 0 < size q
  smaller : ∀ q items, opened q = .inr items → (items.map size).sum < size q

/-- The queue, and the best entries so far. -/
structure State (ι α : Type) where
  queue : List ι
  results : List α

variable {ι α β : Type} [LinearOrder β] (S : Space ι α β)

/-- An item of the least key, and the other ones. -/
def Pops (queue : List ι) (q : ι) (rest : List ι) : Prop :=
  (q :: rest).Perm queue ∧ ∀ other ∈ rest, S.key q ≤ S.key other

/-- Puts an entry in, and drops a farthest one when there are too many. -/
def Keeps (k : Nat) (e : α) (results results' : List α) : Prop :=
  if results.length < k then results' = e :: results
  else ∃ farthest, (farthest :: results').Perm (e :: results) ∧
    ∀ r ∈ results', S.dist r ≤ S.dist farthest

/-- There are enough results, and all of them are nearer than an item. -/
def Far (k : Nat) (results : List α) (q : ι) : Prop :=
  k ≤ results.length ∧ ∀ r ∈ results, S.dist r < S.key q

inductive Step (k : Nat) : State ι α → State ι α → Prop where
  | prune {queue rest : List ι} {results : List α} {q : ι} (popped : Pops S queue q rest)
      (far : Far S k results q) : Step k ⟨queue, results⟩ ⟨rest, results⟩
  | keep {queue rest : List ι} {results results' : List α} {q : ι} {e : α}
      (popped : Pops S queue q rest) (near : ¬ Far S k results q) (entry : S.opened q = .inl e)
      (kept : Keeps S k e results results') : Step k ⟨queue, results⟩ ⟨rest, results'⟩
  | expand {queue rest items : List ι} {results : List α} {q : ι} (popped : Pops S queue q rest)
      (near : ¬ Far S k results q) (node : S.opened q = .inr items) :
      Step k ⟨queue, results⟩ ⟨items ++ rest, results⟩

/-- The search ends with these results. -/
def Finds (k : Nat) (root : ι) (results : List α) : Prop :=
  Relation.ReflTransGen (Step S k) ⟨[root], []⟩ ⟨[], results⟩

omit [LinearOrder β] in
theorem size_lt_of_mem {q c : ι} {items : List ι} (node : S.opened q = .inr items)
    (member : c ∈ items) : S.size c < S.size q :=
  Nat.lt_of_le_of_lt (List.le_sum_of_mem (List.mem_map_of_mem member)) (S.smaller q items node)

/-- The entries below an item, through the nodes that may be passed. -/
def gather (pass : ι → Bool) (q : ι) : List α :=
  match _node : S.opened q with
  | .inl e => [e]
  | .inr items => if pass q then items.attach.flatMap fun c => gather pass c.1 else []
termination_by S.size q
decreasing_by exact size_lt_of_mem S _node c.2

def below (q : ι) : List α := gather S (fun _ => true) q

/-- The entries below an item through nodes with keys of at most `x`. -/
def within (x : β) (q : ι) : List α := gather S (fun n => decide (S.key n ≤ x)) q

/-- The node `n` lies below an item, and `side` hangs off the way to it. -/
inductive Branch : ι → List ι → ι → Prop where
  | refl (q : ι) : Branch q [] q
  | step {a b n : ι} {items others side : List ι} (node : S.opened a = .inr items)
      (split : items.Perm (b :: others)) (rest : Branch b side n) : Branch a (others ++ side) n

/-- No node has a smaller key than the nodes above it. -/
def Rises (root : ι) : Prop :=
  ∀ side q items, Branch S root side q → S.opened q = .inr items →
    ∀ c ∈ items, ∀ items', S.opened c = .inr items' → S.key q ≤ S.key c

/-- The results are as many of the entries as asked for, and no others are nearer. -/
def Best (root : ι) (k : Nat) (results : List α) : Prop :=
  results.length = min k (below S root).length ∧ ∃ dropped,
    (results ++ dropped).Perm (below S root) ∧
      ∀ r ∈ results, ∀ e ∈ dropped, S.dist r ≤ S.dist e

/-- A node with an entry nearer than another one, which is nearer than the key of the node and does
not lie below it but below nodes that come first. -/
def Misled (root : ι) : Prop :=
  ∃ n side items, Branch S root side n ∧ S.opened n = .inr items ∧ ∃ e ∈ below S n,
    ∃ e' ∈ side.flatMap (within S (S.key n)), S.dist e < S.dist e' ∧ S.dist e' < S.key n

section

variable {S}

omit [LinearOrder β] in
theorem gather_entry {pass : ι → Bool} {q : ι} {e : α} (entry : S.opened q = .inl e) :
    gather S pass q = [e] := by
  unfold gather
  split
  · rename_i e' entry'
    obtain rfl := Sum.inl.inj (entry.symm.trans entry')
    rfl
  · rename_i items node
    rw [entry] at node
    cases node

omit [LinearOrder β] in
theorem gather_node {pass : ι → Bool} {q : ι} {items : List ι} (node : S.opened q = .inr items) :
    gather S pass q = if pass q then items.flatMap (gather S pass) else [] := by
  rw [gather]
  split
  · rename_i e entry
    rw [entry] at node
    cases node
  · rename_i items' node'
    obtain rfl := Sum.inr.inj (node.symm.trans node')
    rw [List.flatMap_subtype (by intro x h; rfl)]
    simp

omit [LinearOrder β] in
theorem below_eq {q : ι} {items : List ι} (node : S.opened q = .inr items) :
    below S q = items.flatMap (below S) := by
  unfold below
  rw [gather_node node, if_pos rfl]

end

section

variable {S} {root : ι} {k : Nat}

theorem exists_perm_cons {l : List ι} {c : ι} (member : c ∈ l) :
    ∃ others, l.Perm (c :: others) :=
  (List.singleton_sublist.mpr member).exists_perm_append

omit [LinearOrder β] in
theorem Branch.snoc {a b c : ι} {side items others : List ι} (branch : Branch S a side b)
    (node : S.opened b = .inr items) (split : items.Perm (c :: others)) :
    ∃ side', Branch S a side' c ∧ side'.Perm (side ++ others) := by
  induction branch with
  | refl q => exact ⟨others ++ [], .step node split (.refl c), by simp⟩
  | step above halved _ ih =>
      obtain ⟨side', further, same⟩ := ih node
      refine ⟨_, .step above halved further, ?_⟩
      rw [List.append_assoc]
      exact same.append_left _

omit [LinearOrder β] in
theorem Branch.opens {a n : ι} {side items : List ι} (branch : Branch S a side n)
    (node : S.opened n = .inr items) : ∃ items', S.opened a = .inr items' := by
  cases branch with
  | refl _ => exact ⟨items, node⟩
  | step above _ _ => exact ⟨_, above⟩

/-- From an item to another one through nodes with keys of at most `x`. -/
def Passes (S : Space ι α β) (x : β) : ι → ι → Prop :=
  Relation.ReflTransGen fun a c => ∃ items, S.opened a = .inr items ∧ S.key a ≤ x ∧ c ∈ items

theorem Passes.mono {x x' : β} (le : x ≤ x') {a c : ι} (passes : Passes S x a c) :
    Passes S x' a c := by
  refine Relation.ReflTransGen.mono ?_ _ _ passes
  rintro b d ⟨items, node, low, member⟩
  exact ⟨items, node, low.trans le, member⟩

theorem Passes.mem_within {x : β} {a c : ι} {e : α} (passes : Passes S x a c)
    (entry : S.opened c = .inl e) : e ∈ within S x a := by
  induction passes using Relation.ReflTransGen.head_induction_on with
  | refl =>
      unfold within
      rw [gather_entry entry]
      exact List.mem_singleton_self e
  | head opens _ ih =>
      obtain ⟨items, node, low, member⟩ := opens
      unfold within at ih ⊢
      rw [gather_node node, if_pos (by simpa using low)]
      exact List.mem_flatMap.mpr ⟨_, member, ih⟩

/-- If the first item is a node, the second one is reached beside the way to it, through nodes that
come first. -/
def Beside (S : Space ι α β) (root q q' : ι) : Prop :=
  ∀ items, S.opened q = .inr items →
    ∃ side, Branch S root side q ∧ ∃ c ∈ side, Passes S (S.key q) c q'

/-- Nothing that was dropped is nearer than a result, and what was found lies beside what is
still in the queue. -/
structure Inv (S : Space ι α β) (root : ι) (k : Nat) (s : State ι α) : Prop where
  few : s.results.length ≤ k
  all : ∃ dropped, (s.results ++ s.queue.flatMap (below S) ++ dropped).Perm (below S root) ∧
    (dropped ≠ [] → s.results.length = k) ∧
      ∀ r ∈ s.results, ∀ e ∈ dropped, S.dist r ≤ S.dist e
  placed : ∀ q ∈ s.queue, ∃ side, Branch S root side q
  apart : s.queue.Pairwise fun q q' => Beside S root q q' ∧ Beside S root q' q
  earlier : ∀ r ∈ s.results, ∀ q ∈ s.queue, ∃ leaf, S.opened leaf = .inl r ∧ Beside S root q leaf

theorem Beside.below {q c q' : ι} {items : List ι} (rises : Rises S root)
    (beside : Beside S root q q') (node : S.opened q = .inr items) (member : c ∈ items) :
    Beside S root c q' := by
  intro items' node'
  obtain ⟨side, branch, d, hanging, passes⟩ := beside items node
  obtain ⟨others, split⟩ := exists_perm_cons member
  obtain ⟨side', further, same⟩ := branch.snoc node split
  refine ⟨side', further, d, same.mem_iff.mpr (List.mem_append_left _ hanging), ?_⟩
  exact passes.mono (rises side q items branch node c member items' node')

theorem Beside.open {q c q' : ι} {items : List ι} (beside : Beside S root q' q)
    (node : S.opened q = .inr items) (low : S.key q ≤ S.key q') (member : c ∈ items) :
    Beside S root q' c := by
  intro items' node'
  obtain ⟨side, branch, d, hanging, passes⟩ := beside items' node'
  exact ⟨side, branch, d, hanging, passes.tail ⟨items, node, low, member⟩⟩

theorem siblings_apart {q : ι} {side items : List ι} (branch : Branch S root side q)
    (node : S.opened q = .inr items) :
    items.Pairwise fun c c' => Beside S root c c' ∧ Beside S root c' c := by
  have beside : ∀ c c' rest, items.Perm (c :: c' :: rest) → Beside S root c c' := by
    intro c c' rest split items' _
    obtain ⟨side', further, same⟩ := branch.snoc node split
    exact ⟨side', further, c', same.mem_iff.mpr (by simp), .refl⟩
  rw [List.pairwise_iff_forall_sublist]
  intro c c' sub
  obtain ⟨rest, split⟩ := sub.exists_perm_append
  exact ⟨beside c c' rest split, beside c' c rest (split.trans (List.Perm.swap c' c rest))⟩

theorem inv_start (root : ι) : Inv S root k ⟨[root], []⟩ := by
  refine ⟨Nat.zero_le k, ⟨[], ?_, fun some => absurd rfl some, by simp⟩, ?_, ?_, by simp⟩
  · simp
  · intro q member
    obtain rfl := List.mem_singleton.mp member
    exact ⟨[], .refl q⟩
  · exact List.pairwise_singleton _ _

theorem Inv.popped {s : State ι α} {q : ι} {rest : List ι} (inv : Inv S root k s)
    (popped : Pops S s.queue q rest) :
    (∃ side, Branch S root side q) ∧ (∀ other ∈ rest, ∃ side, Branch S root side other) ∧
      (∀ other ∈ rest, Beside S root q other ∧ Beside S root other q) ∧
      rest.Pairwise fun a b => Beside S root a b ∧ Beside S root b a := by
  have apart := (popped.1.pairwise_iff (fun pair => pair.symm)).mpr inv.apart
  obtain ⟨first, others⟩ := List.pairwise_cons.mp apart
  refine ⟨inv.placed q (popped.1.subset List.mem_cons_self), ?_, first, others⟩
  intro other member
  exact inv.placed other (popped.1.subset (List.mem_cons_of_mem q member))

omit [LinearOrder β] in
theorem perm_of_visit {queue rest : List ι} {q : ι}
    {results results' moved lost dropped whole : List α} (popped : (q :: rest).Perm queue)
    (all : (results ++ queue.flatMap (below S) ++ dropped).Perm whole)
    (visited : (results' ++ moved ++ lost).Perm (below S q ++ results)) :
    (results' ++ (moved ++ rest.flatMap (below S)) ++ (lost ++ dropped)).Perm whole := by
  classical
  refine List.perm_iff_count.mpr fun a => ?_
  have before := all.count_eq a
  have queued := (popped.flatMap_right (below S)).count_eq a
  have parts := visited.count_eq a
  simp only [List.flatMap_cons, List.count_append] at before queued parts ⊢
  omega

theorem Inv.prune {queue rest : List ι} {results : List α} {q : ι}
    (inv : Inv S root k ⟨queue, results⟩) (clear : ¬ Misled S root) (popped : Pops S queue q rest)
    (far : Far S k results q) : Inv S root k ⟨rest, results⟩ := by
  obtain ⟨-, placed, -, apart⟩ := inv.popped popped
  obtain ⟨few, ⟨dropped, all, full, nearer⟩, -, -, earlier⟩ := inv
  refine ⟨few, ⟨below S q ++ dropped, ?_, fun _ => Nat.le_antisymm few far.1, ?_⟩, placed, apart,
    ?_⟩
  · have gone : (results ++ [] ++ below S q).Perm (below S q ++ results) := by
      rw [List.append_nil]
      exact List.perm_append_comm
    exact perm_of_visit popped.1 all gone
  · intro r found e lost
    rcases List.mem_append.mp lost with under | old
    · cases opens : S.opened q with
      | inl e' =>
          unfold below at under
          rw [gather_entry opens] at under
          obtain rfl := List.mem_singleton.mp under
          have beyond := far.2 r found
          rw [S.key_entry q e opens] at beyond
          exact beyond.le
      | inr items =>
          refine le_of_not_gt fun closer => clear ?_
          obtain ⟨leaf, entry, beside⟩ := earlier r found q (popped.1.subset List.mem_cons_self)
          obtain ⟨side, branch, c, hanging, passes⟩ := beside items opens
          exact ⟨q, side, items, branch, opens, e, under, r,
            List.mem_flatMap.mpr ⟨c, hanging, passes.mem_within entry⟩, closer, far.2 r found⟩
    · exact nearer r found e old
  · intro r found other member
    exact earlier r found other (popped.1.subset (List.mem_cons_of_mem q member))

theorem Keeps.spec {results results' : List α} {x : α} (kept : Keeps S k x results results')
    (few : results.length ≤ k) :
    results'.length ≤ k ∧ ∃ lost, (results' ++ lost).Perm (x :: results) ∧
      (lost ≠ [] → results'.length = k) ∧ ∀ r ∈ results', ∀ y ∈ lost, S.dist r ≤ S.dist y := by
  unfold Keeps at kept
  split at kept
  · rename_i less
    rw [kept]
    exact ⟨less, [], by rw [List.append_nil], fun some => absurd rfl some, by simp⟩
  · obtain ⟨farthest, same, least⟩ := kept
    have lengths := same.length_eq
    simp only [List.length_cons] at lengths
    refine ⟨by omega, [farthest], ?_, fun _ => by omega, ?_⟩
    · exact (List.perm_append_singleton farthest results').trans same
    · intro r found y only
      rw [List.mem_singleton.mp only]
      exact least r found

theorem Inv.keep {queue rest : List ι} {results results' : List α} {q : ι} {e : α}
    (inv : Inv S root k ⟨queue, results⟩) (popped : Pops S queue q rest)
    (near : ¬ Far S k results q) (entry : S.opened q = .inl e)
    (kept : Keeps S k e results results') : Inv S root k ⟨rest, results'⟩ := by
  obtain ⟨-, placed, beside, apart⟩ := inv.popped popped
  obtain ⟨few, ⟨dropped, all, full, nearer⟩, -, -, earlier⟩ := inv
  obtain ⟨few', lost, exchanged, full', farther⟩ := kept.spec few
  dsimp only at few full nearer
  have single : below S q = [e] := gather_entry entry
  have found : ∀ r ∈ results', r = e ∨ r ∈ results := fun r member =>
    List.mem_cons.mp (exchanged.subset (List.mem_append_left lost member))
  have closer : ∀ x ∈ dropped, S.dist e ≤ S.dist x := by
    intro x missing
    have count := full (List.ne_nil_of_mem missing)
    refine le_of_not_gt fun less => near ⟨count.ge, fun r member => ?_⟩
    rw [S.key_entry q e entry]
    exact (nearer r member x missing).trans_lt less
  refine ⟨few', ⟨lost ++ dropped, ?_, ?_, ?_⟩, placed, apart, ?_⟩
  · have put : (results' ++ [] ++ lost).Perm (below S q ++ results) := by
      rwa [List.append_nil, single, List.singleton_append]
    exact perm_of_visit popped.1 all put
  · intro some
    have lengths := exchanged.length_eq
    rw [List.length_append, List.length_cons] at lengths
    by_cases none : lost = []
    · have count := full fun empty => some (by rw [none, empty, List.nil_append])
      rw [none, List.length_nil] at lengths
      change results'.length = k
      omega
    · exact full' none
  · intro r member x missing
    rcases List.mem_append.mp missing with new | old
    · exact farther r member x new
    · rcases found r member with rfl | before
      · exact closer x old
      · exact nearer r before x old
  · intro r member other waits
    rcases found r member with rfl | old
    · exact ⟨q, entry, (beside other waits).2⟩
    · exact earlier r old other (popped.1.subset (List.mem_cons_of_mem q waits))

theorem Inv.expand {queue rest items : List ι} {results : List α} {q : ι}
    (inv : Inv S root k ⟨queue, results⟩) (rises : Rises S root) (popped : Pops S queue q rest)
    (node : S.opened q = .inr items) : Inv S root k ⟨items ++ rest, results⟩ := by
  obtain ⟨⟨side, branch⟩, placed, beside, apart⟩ := inv.popped popped
  obtain ⟨few, ⟨dropped, all, full, nearer⟩, -, -, earlier⟩ := inv
  refine ⟨few, ⟨dropped, ?_, full, nearer⟩, ?_, ?_, ?_⟩
  · rw [List.flatMap_append, ← List.nil_append dropped]
    refine perm_of_visit popped.1 all ?_
    rw [List.append_nil, below_eq node]
    exact List.perm_append_comm
  · intro c member
    rcases List.mem_append.mp member with new | old
    · obtain ⟨others, split⟩ := exists_perm_cons new
      obtain ⟨side', further, -⟩ := branch.snoc node split
      exact ⟨side', further⟩
    · exact placed c old
  · refine List.pairwise_append.mpr ⟨siblings_apart branch node, apart, ?_⟩
    intro c new other old
    obtain ⟨away, back⟩ := beside other old
    exact ⟨away.below rises node new, back.open node (popped.2 other old) new⟩
  · intro r found c member
    rcases List.mem_append.mp member with new | old
    · obtain ⟨leaf, entry, away⟩ := earlier r found q (popped.1.subset List.mem_cons_self)
      exact ⟨leaf, entry, away.below rises node new⟩
    · exact earlier r found c (popped.1.subset (List.mem_cons_of_mem q old))

theorem Inv.step {s s' : State ι α} (inv : Inv S root k s) (rises : Rises S root)
    (clear : ¬ Misled S root) (step : Step S k s s') : Inv S root k s' := by
  cases step with
  | prune popped far => exact inv.prune clear popped far
  | keep popped near entry kept => exact inv.keep popped near entry kept
  | expand popped near node => exact inv.expand rises popped node

theorem Finds.best {results : List α} (rises : Rises S root) (clear : ¬ Misled S root)
    (finds : Finds S k root results) : Best S root k results := by
  have inv : ∀ s, Relation.ReflTransGen (Step S k) ⟨[root], []⟩ s → Inv S root k s := by
    intro s reached
    induction reached with
    | refl => exact inv_start root
    | tail _ step ih => exact ih.step rises clear step
  have inv := inv _ finds
  obtain ⟨few, ⟨dropped, all, full, nearer⟩, -, -, -⟩ := inv
  dsimp only at few all full nearer
  rw [List.flatMap_nil, List.append_nil] at all
  refine ⟨?_, dropped, all, nearer⟩
  have total := all.length_eq
  rw [List.length_append] at total
  by_cases none : dropped = []
  · rw [none, List.length_nil] at total
    omega
  · have exact := full none
    omega

end

section

variable {S} {root : ι} {k : Nat}

theorem pops_exists {queue : List ι} (some : queue ≠ []) : ∃ q rest, Pops S queue q rest := by
  obtain ⟨q, rest, taken⟩ := @Heap.pop_isSome _ _ _ (fun q => OrderDual.toDual (S.key q)) queue some
  exact ⟨q, rest, Heap.pop_perm taken, Heap.pop_greatest taken⟩

theorem keeps_exists (e : α) (results : List α) : ∃ results', Keeps S k e results results' := by
  unfold Keeps
  split
  · exact ⟨_, rfl⟩
  · obtain ⟨farthest, others, taken⟩ :=
      @Heap.pop_isSome _ _ _ S.dist (e :: results) (List.cons_ne_nil e results)
    exact ⟨others, farthest, Heap.pop_perm taken, Heap.pop_greatest taken⟩

theorem prune_all {queue : List ι} {results : List α} (full : k ≤ results.length)
    (far : ∀ q ∈ queue, ∀ r ∈ results, S.dist r < S.key q) :
    Relation.ReflTransGen (Step S k) ⟨queue, results⟩ ⟨[], results⟩ := by
  induction count : queue.length generalizing queue with
  | zero =>
      rw [List.length_eq_zero_iff.mp count]
  | succ n ih =>
      have some : queue ≠ [] := by
        intro none
        rw [none] at count
        cases count
      obtain ⟨q, rest, popped⟩ := pops_exists (S := S) some
      have lengths := popped.1.length_eq
      rw [List.length_cons, count] at lengths
      have later := ih (fun other member => far other (popped.1.subset
        (List.mem_cons_of_mem q member))) (Nat.succ.inj lengths)
      exact .head (.prune popped ⟨full, far q (popped.1.subset List.mem_cons_self)⟩) later

/-- The search can still end with results that are not the best ones. -/
def Fails (S : Space ι α β) (root : ι) (k : Nat) (s : State ι α) : Prop :=
  ∃ results, Relation.ReflTransGen (Step S k) s ⟨[], results⟩ ∧ ∃ dropped,
    (results ++ dropped).Perm (below S root) ∧
      ∃ r ∈ results, ∃ e ∈ dropped, S.dist e < S.dist r

theorem Fails.head {s s' : State ι α} (step : Step S k s s') (fails : Fails S root k s') :
    Fails S root k s := by
  obtain ⟨results, run, wrong⟩ := fails
  exact ⟨results, .head step run, wrong⟩

/-- The entries up to a distance: those among the results, and those below some items through nodes
with keys of at most `x`. -/
def reachable (S : Space ι α β) (x y : β) (results : List α) (items : List ι) : Nat :=
  results.countP (fun r => decide (S.dist r ≤ y)) +
    (items.flatMap (within S x)).countP fun r => decide (S.dist r ≤ y)

theorem reachable_perm {x y : β} {results : List α} {items items' : List ι}
    (same : items.Perm items') :
    reachable S x y results items = reachable S x y results items' := by
  unfold reachable
  rw [(same.flatMap_right (within S x)).countP_eq]

theorem reachable_entry {x y : β} {results : List α} {items : List ι} {o : ι} {e : α}
    (entry : S.opened o = .inl e) :
    reachable S x y results (o :: items) = reachable S x y (e :: results) items := by
  unfold reachable within
  rw [List.flatMap_cons, gather_entry entry, List.countP_append, List.countP_cons, List.countP_cons,
    List.countP_nil]
  omega

theorem reachable_node {x y : β} {results : List α} {items opens : List ι} {o : ι}
    (node : S.opened o = .inr opens) (low : S.key o ≤ x) :
    reachable S x y results (o :: items) = reachable S x y results (opens ++ items) := by
  unfold reachable within
  rw [List.flatMap_cons, gather_node node, if_pos (by simpa using low), List.flatMap_append]

theorem reachable_beyond {x y : β} {results : List α} {items : List ι} (less : y < x)
    (beyond : ∀ o ∈ items, x < S.key o) :
    reachable S x y results items = results.countP fun r => decide (S.dist r ≤ y) := by
  unfold reachable
  refine Nat.add_eq_left.mpr (List.countP_eq_zero.mpr fun r member => ?_)
  obtain ⟨o, waits, under⟩ := List.mem_flatMap.mp member
  have far := beyond o waits
  unfold within at under
  cases opens : S.opened o with
  | inl e =>
      rw [gather_entry opens] at under
      obtain rfl := List.mem_singleton.mp under
      rw [S.key_entry o r opens] at far
      simpa using less.trans far
  | inr items =>
      rw [gather_node opens, if_neg (by simpa using far)] at under
      cases under

/-- Too many entries up to a distance cannot be dropped. -/
theorem reachable_keep {x y : β} {results results' : List α} {items : List ι} {e : α}
    (kept : Keeps S k e results results') :
    reachable S x y results' items ≤ reachable S x y (e :: results) items ∧
      (k ≤ reachable S x y (e :: results) items → k ≤ reachable S x y results' items) := by
  unfold Keeps at kept
  split at kept
  · rw [kept]
    exact ⟨Nat.le_refl _, id⟩
  · rename_i many
    obtain ⟨farthest, same, least⟩ := kept
    unfold reachable
    have counted := same.countP_eq fun r => decide (S.dist r ≤ y)
    have lengths := same.length_eq
    rw [List.countP_cons] at counted
    simp only [List.length_cons] at lengths
    rw [← counted]
    refine ⟨by omega, ?_⟩
    by_cases inside : S.dist farthest ≤ y
    · have all : results'.countP (fun r => decide (S.dist r ≤ y)) = results'.length :=
        List.countP_eq_length.mpr fun r member => by simpa using (least r member).trans inside
      omega
    · simp only [inside, decide_false]
      intro enough
      simpa using enough

/-- A node waits in the queue, with an entry `e` below it; beside it there are enough entries that
come before it, and too few of them are as near as `e`. -/
structure Lures (S : Space ι α β) (root n : ι) (e e' : α) (k : Nat) (s : State ι α) (a : ι)
    (others side : List ι) : Prop where
  queued : s.queue.Perm (a :: others)
  above : ∃ side', Branch S root side' a
  branch : Branch S a side n
  few : s.results.length ≤ k
  all : ∃ dropped, (s.results ++ s.queue.flatMap (below S) ++ dropped).Perm (below S root)
  enough : k ≤ reachable S (S.key n) (S.dist e') s.results (others ++ side)
  short : reachable S (S.key n) (S.dist e) s.results (others ++ side) < k

variable {n a : ι} {e e' : α} {s : State ι α} {others side : List ι}

omit [LinearOrder β] in
theorem below_subset_of_branch {a n : ι} {side : List ι} (branch : Branch S a side n) :
    below S n ⊆ below S a := by
  induction branch with
  | refl q => exact List.Subset.refl _
  | step node split _ ih =>
      intro r under
      rw [below_eq node]
      exact List.mem_flatMap.mpr ⟨_, split.mem_iff.mpr List.mem_cons_self, ih under⟩

/-- Pruning anything before the node loses the entry below it, with a farther one kept. -/
theorem Lures.fails_of_far (lures : Lures S root n e e' k s a others side)
    (under : e ∈ below S n) {q : ι} {rest : List ι} (popped : Pops S s.queue q rest)
    (far : Far S k s.results q) : Fails S root k s := by
  obtain ⟨queue, results⟩ := s
  obtain ⟨queued, -, branch, few, ⟨dropped, all⟩, -, short⟩ := lures
  dsimp only at *
  refine Fails.head (.prune popped far) ⟨results, prune_all far.1 ?_, ?_⟩
  · intro other member r found
    exact (far.2 r found).trans_le (popped.2 other member)
  · refine ⟨queue.flatMap (below S) ++ dropped, by rwa [← List.append_assoc], ?_⟩
    have farther : ∃ r ∈ results, S.dist e < S.dist r := by
      by_contra none
      push Not at none
      have every : results.countP (fun r => decide (S.dist r ≤ S.dist e)) = results.length :=
        List.countP_eq_length.mpr fun r member => by simpa using none r member
      have enough := far.1
      unfold reachable at short
      omega
    obtain ⟨r, found, less⟩ := farther
    refine ⟨r, found, e, List.mem_append_left _ ?_, less⟩
    have waits : a ∈ queue := queued.mem_iff.mpr List.mem_cons_self
    exact List.mem_flatMap.mpr ⟨a, waits, below_subset_of_branch branch under⟩

theorem Branch.key_le {a n : ι} {above side items : List ι} (rises : Rises S root)
    (placed : Branch S root above a) (branch : Branch S a side n) (node : S.opened n = .inr items) :
    S.key a ≤ S.key n := by
  induction branch generalizing above with
  | refl q => exact le_refl _
  | @step a b n opens others side opened split further ih =>
      obtain ⟨above', placed', -⟩ := placed.snoc opened split
      obtain ⟨items', node'⟩ := further.opens node
      have first := rises above a opens placed opened b (split.mem_iff.mpr List.mem_cons_self)
        items' node'
      exact first.trans (ih placed' node)

theorem Lures.moved {queue others' : List ι} {results : List α} {o : ι}
    (lures : Lures S root n e e' k ⟨queue, results⟩ a others side)
    (split : others.Perm (o :: others')) : (o :: a :: others').Perm queue :=
  (List.Perm.swap a o others').trans ((split.symm.cons a).trans lures.queued.symm)

theorem Lures.beside {queue others' : List ι} {results : List α} {o : ι}
    (lures : Lures S root n e e' k ⟨queue, results⟩ a others side)
    (split : others.Perm (o :: others')) (least : ∀ other ∈ queue, S.key o ≤ S.key other) :
    Pops S queue o (a :: others') := by
  refine ⟨lures.moved split, fun other member => ?_⟩
  exact least other ((lures.moved split).subset (List.mem_cons_of_mem o member))

theorem Lures.keep {queue others' : List ι} {results results' : List α} {o : ι} {x : α}
    (lures : Lures S root n e e' k ⟨queue, results⟩ a others side)
    (split : others.Perm (o :: others')) (entry : S.opened o = .inl x)
    (kept : Keeps S k x results results') :
    Lures S root n e e' k ⟨a :: others', results'⟩ a others' side := by
  have moved := lures.moved split
  obtain ⟨-, above, branch, few, ⟨dropped, all⟩, enough, short⟩ := lures
  have items : (others ++ side).Perm (o :: (others' ++ side)) := split.append_right side
  rw [reachable_perm items, reachable_entry entry] at enough short
  obtain ⟨few', lost, exchanged, -⟩ := kept.spec few
  have put : (results' ++ [] ++ lost).Perm (below S o ++ results) := by
    have single : below S o = [x] := gather_entry entry
    rwa [List.append_nil, single, List.singleton_append]
  have after := perm_of_visit moved all put
  exact ⟨List.Perm.refl _, above, branch, few', ⟨lost ++ dropped, after⟩,
    (reachable_keep kept).2 enough, (reachable_keep kept).1.trans_lt short⟩

theorem Lures.expand {queue others' items : List ι} {results : List α} {o : ι}
    (lures : Lures S root n e e' k ⟨queue, results⟩ a others side)
    (split : others.Perm (o :: others')) (node : S.opened o = .inr items)
    (low : S.key o ≤ S.key n) :
    Lures S root n e e' k ⟨items ++ a :: others', results⟩ a (items ++ others') side := by
  have moved := lures.moved split
  obtain ⟨-, above, branch, few, ⟨dropped, all⟩, enough, short⟩ := lures
  have waits : (others ++ side).Perm (o :: (others' ++ side)) := split.append_right side
  rw [reachable_perm waits, reachable_node node low, ← List.append_assoc] at enough short
  refine ⟨List.perm_middle, above, branch, few, ⟨[] ++ dropped, ?_⟩, enough, short⟩
  dsimp only
  rw [List.flatMap_append]
  refine perm_of_visit moved all ?_
  rw [List.append_nil, below_eq node]
  exact List.perm_append_comm

theorem Lures.descend {b : ι} {queue items hanging : List ι} {results : List α}
    (lures : Lures S root n e e' k ⟨queue, results⟩ a others (hanging ++ side))
    (node : S.opened a = .inr items) (split : items.Perm (b :: hanging))
    (branch : Branch S b side n) :
    Lures S root n e e' k ⟨items ++ others, results⟩ b (hanging ++ others) side := by
  obtain ⟨queued, ⟨above, placed⟩, -, few, ⟨dropped, all⟩, enough, short⟩ := lures
  obtain ⟨above', placed', -⟩ := placed.snoc node split
  have moved : (others ++ (hanging ++ side)).Perm (hanging ++ others ++ side) := by
    rw [← List.append_assoc]
    exact List.perm_append_comm.append_right side
  rw [reachable_perm moved] at enough short
  refine ⟨split.append_right others, ⟨above', placed'⟩, branch, few, ⟨dropped, ?_⟩, enough, short⟩
  have waiting := queued.flatMap_right (below S)
  rw [List.flatMap_cons, below_eq node, ← List.flatMap_append] at waiting
  exact ((waiting.symm.append_left results).append_right dropped).trans all

theorem Lures.first {queue : List ι} {results : List α}
    (lures : Lures S root n e e' k ⟨queue, results⟩ a others side)
    (beside : ¬ ∃ o ∈ others, ∀ other ∈ queue, S.key o ≤ S.key other) :
    Pops S queue a others := by
  have waits : a ∈ queue := lures.queued.mem_iff.mpr List.mem_cons_self
  obtain ⟨q, rest, same, least⟩ := pops_exists (S := S) (List.ne_nil_of_mem waits)
  have lowest : ∀ other ∈ queue, S.key q ≤ S.key other := by
    intro other member
    rcases List.mem_cons.mp (same.mem_iff.mpr member) with rfl | later
    · exact le_refl _
    · exact least other later
  have member := lures.queued.subset (same.subset List.mem_cons_self)
  rcases List.mem_cons.mp member with rfl | other
  · refine ⟨lures.queued.symm, fun other member => lowest other ?_⟩
    exact lures.queued.mem_iff.mpr (List.mem_cons_of_mem q member)
  · exact absurd ⟨q, other, lowest⟩ beside

/-- When the node itself comes first, enough entries nearer than its key have been found. -/
theorem Lures.far_of_first {queue : List ι} {results : List α}
    (lures : Lures S root n e e' k ⟨queue, results⟩ n others [])
    (closer : S.dist e' < S.key n) (popped : Pops S queue n others)
    (beside : ¬ ∃ o ∈ others, ∀ other ∈ queue, S.key o ≤ S.key other) : Far S k results n := by
  have beyond : ∀ o ∈ others ++ [], S.key n < S.key o := by
    intro o member
    rw [List.append_nil] at member
    refine lt_of_not_ge fun low => beside ⟨o, member, fun other waits => ?_⟩
    rcases List.mem_cons.mp (popped.1.mem_iff.mpr waits) with rfl | later
    · exact low
    · exact low.trans (popped.2 other later)
  have enough := lures.enough
  rw [reachable_beyond closer beyond] at enough
  have few := lures.few
  have counted := List.countP_le_length (p := fun r => decide (S.dist r ≤ S.dist e')) (l := results)
  dsimp only at enough few
  refine ⟨enough.trans counted, fun r found => ?_⟩
  have every := List.countP_eq_length.mp (Nat.le_antisymm counted (few.trans enough)) r found
  exact (of_decide_eq_true every).trans_lt closer

theorem Lures.fails {items : List ι} (rises : Rises S root) (node : S.opened n = .inr items)
    (under : e ∈ below S n) (closer : S.dist e' < S.key n)
    (lures : Lures S root n e e' k s a others side) : Fails S root k s := by
  induction left : (s.queue.map S.size).sum using Nat.strong_induction_on
    generalizing s a others side with
  | _ m ih =>
      subst left
      obtain ⟨queue, results⟩ := s
      dsimp only at ih
      obtain ⟨above, placed⟩ := lures.above
      have before := placed.key_le rises lures.branch node
      by_cases beside : ∃ o ∈ others, ∀ other ∈ queue, S.key o ≤ S.key other
      · obtain ⟨o, waits, least⟩ := beside
        obtain ⟨others', split⟩ := exists_perm_cons waits
        have popped := lures.beside split least
        have low : S.key o ≤ S.key n :=
          (least a (lures.queued.mem_iff.mpr List.mem_cons_self)).trans before
        have total := (popped.1.map S.size).sum_eq
        rw [List.map_cons, List.sum_cons] at total
        have positive := S.size_pos o
        by_cases far : Far S k results o
        · exact lures.fails_of_far under popped far
        · cases opens : S.opened o with
          | inl x =>
              obtain ⟨results', kept⟩ := keeps_exists (S := S) (k := k) x results
              refine Fails.head (.keep popped far opens kept) ?_
              refine ih _ ?_ (lures.keep split opens kept) rfl
              dsimp only
              omega
          | inr inner =>
              refine Fails.head (.expand popped far opens) ?_
              have smaller := S.smaller o inner opens
              refine ih _ ?_ (lures.expand split opens low) rfl
              rw [List.map_append, List.sum_append]
              omega
      · -- The node itself, or the one above it that waits in the queue, comes strictly first.
        have popped := lures.first beside
        by_cases far : Far S k results a
        · exact lures.fails_of_far under popped far
        · cases branch : lures.branch with
          | refl _ => exact absurd (lures.far_of_first closer popped beside) far
          | step opens split further =>
              refine Fails.head (.expand popped far opens) ?_
              have total := (popped.1.map S.size).sum_eq
              have smaller := S.smaller a _ opens
              rw [List.map_cons, List.sum_cons] at total
              refine ih _ ?_ (lures.descend opens split further) rfl
              rw [List.map_append, List.sum_append]
              omega

theorem lures_start {e e' : α} {side : List ι} (branch : Branch S root side n)
    (nearer : e' ∈ side.flatMap (within S (S.key n))) (less : S.dist e < S.dist e') :
    Lures S root n e e' (reachable S (S.key n) (S.dist e') [] side) ⟨[root], []⟩ root [] side := by
  obtain ⟨others, split⟩ := (List.singleton_sublist.mpr nearer).exists_perm_append
  refine ⟨List.Perm.refl _, ⟨[], .refl root⟩, branch, Nat.zero_le _, ⟨[], ?_⟩, Nat.le_refl _, ?_⟩
  · rw [List.flatMap_singleton, List.append_nil, List.nil_append]
  · unfold reachable
    rw [List.countP_nil, List.countP_nil, List.nil_append, split.countP_eq, split.countP_eq]
    have fewer : others.countP (fun r => decide (S.dist r ≤ S.dist e)) ≤
        others.countP fun r => decide (S.dist r ≤ S.dist e') :=
      List.countP_mono_left fun r _ low => by simpa using (of_decide_eq_true low).trans less.le
    rw [List.singleton_append, List.countP_cons, List.countP_cons,
      if_neg (by simpa using less), if_pos (by simp)]
    omega

end

/-- The search finds the best entries, however many are asked for and in whatever order equal keys
are taken, exactly where no node misleads it. -/
theorem best_iff {root : ι} (rises : Rises S root) :
    (∀ k results, Finds S k root results → Best S root k results) ↔ ¬ Misled S root := by
  constructor
  · rintro best ⟨n, side, items, branch, node, e, under, e', nearer, less, closer⟩
    have lures := lures_start branch nearer less
    obtain ⟨results, finds, lost, all, r, found, x, missing, farther⟩ :=
      lures.fails rises node under closer
    obtain ⟨-, lost', all', nearest⟩ := best _ results finds
    have same : lost.Perm lost' := (List.perm_append_left_iff results).mp (all.trans all'.symm)
    exact absurd (nearest r found x (same.subset missing)) (not_le_of_gt farther)
  · intro clear k results finds
    exact finds.best rises clear

theorem Finds.length_le {root : ι} {k : Nat} {results : List α} (finds : Finds S k root results) :
    results.length ≤ k := by
  have few : ∀ s, Relation.ReflTransGen (Step S k) ⟨[root], []⟩ s → s.results.length ≤ k := by
    intro s reached
    induction reached with
    | refl => exact Nat.zero_le k
    | tail _ step ih =>
        cases step with
        | prune _ _ => exact ih
        | keep _ _ _ kept => exact (kept.spec ih).1
        | expand _ _ _ => exact ih
  exact few _ finds

theorem eq_take_mergeSort_iff {least others all : List β} {k : Nat}
    (split : (least ++ others).Perm all) (sorted : least.Pairwise (· ≤ ·)) :
    least = (all.mergeSort fun a b => decide (a ≤ b)).take k ↔
      least.length = min k all.length ∧ ∀ a ∈ least, ∀ b ∈ others, a ≤ b := by
  have whole := List.mergeSort_perm all fun a b => decide (a ≤ b)
  have ascending := List.pairwise_mergeSort' (fun a b : β => a ≤ b) all
  constructor
  · intro first
    refine ⟨by rw [first, List.length_take, List.length_mergeSort], ?_⟩
    have parts := List.take_append_drop k (all.mergeSort fun a b => decide (a ≤ b))
    rw [← first] at parts
    rw [← parts] at whole ascending
    have rest : others.Perm ((all.mergeSort fun a b => decide (a ≤ b)).drop k) :=
      (List.perm_append_left_iff least).mp (split.trans whole.symm)
    intro a member b other
    exact (List.pairwise_append.mp ascending).2.2 a member b (rest.subset other)
  · rintro ⟨length, below⟩
    have behind := List.mergeSort_perm others fun a b => decide (a ≤ b)
    have same : all.mergeSort (fun a b => decide (a ≤ b)) =
        least ++ others.mergeSort fun a b => decide (a ≤ b) := by
      refine List.Perm.eq_of_pairwise' ascending ?_
        (whole.trans (split.symm.trans (behind.symm.append_left least)))
      refine List.pairwise_append.mpr
        ⟨sorted, List.pairwise_mergeSort' (fun a b : β => a ≤ b) others, ?_⟩
      intro a member b other
      exact below a member b (behind.subset other)
    rw [same]
    have total := split.length_eq
    rw [List.length_append] at total
    by_cases enough : k ≤ all.length
    · exact (List.take_left' (by omega)).symm
    · have none : others = [] := List.length_eq_zero_iff.mp (by omega)
      rw [none, List.mergeSort_nil, List.append_nil]
      exact (List.take_of_length_le (by omega)).symm

end Zumic.Lib.BestFirst
