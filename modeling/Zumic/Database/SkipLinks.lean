/- The loops over the levels of a skip list: the descent, linking a node in and out, and giving up
empty levels. -/

import Zumic.Database.Lanes

namespace Zumic.Database

open Lib.Buffer Lib.Successor

variable {K V : Type} {mem : Memory K V} {prev : Addr → Option Addr}

theorem walk_ok {cells P Q R : List (Cell K V)} {c : Cell K V} {passes : K → Bool} {i fuel : Nat}
    (depicts : Depicts mem cells (ahead cells) prev) (distinct : (cells.map Cell.addr).Nodup)
    (low : i < maxLevel) (listed : cells.filter (fun c => i < c.height) = P ++ c :: (Q ++ R))
    (passed : ∀ q ∈ Q, passes q.key = true) (stopped : ∀ r ∈ R, passes r.key = false)
    (enough : Q.length < fuel) :
    ∃ last, (c :: Q).getLast? = some last ∧ mem.walk passes i fuel c.addr = .ok last.addr := by
  induction fuel generalizing P c Q with
  | zero => exact absurd enough (Nat.not_lt_zero _)
  | succ fuel ih =>
      have member : ∀ b ∈ P ++ c :: (Q ++ R), b ∈ cells := fun b within =>
        List.mem_of_mem_filter (listed ▸ within)
      have lanes : lane cells i = P.map Cell.addr ++ c.addr :: (Q ++ R).map Cell.addr := by
        rw [lane, listed]
        simp
      have nodup : (P.map Cell.addr ++ c.addr :: (Q ++ R).map Cell.addr).Nodup :=
        lanes ▸ (lane_sublist cells i).nodup distinct
      have first : c.addr ∉ P.map Cell.addr := fun within =>
        (List.nodup_append.mp nodup).2.2 _ within _ List.mem_cons_self rfl
      have link : ahead cells i c.addr = ((Q ++ R).map Cell.addr).head? := by
        rw [ahead, lanes, after_middle first]
      rw [Memory.walk, depicts.forward (member c (by simp)) low, ok_bind, link]
      cases Q with
      | nil =>
          refine ⟨c, rfl, ?_⟩
          cases R with
          | nil => rfl
          | cons r R =>
              simp only [List.nil_append, List.map_cons, List.head?_cons]
              rw [depicts.deref (member r (by simp)), ok_bind]
              simp only [Cell.node, stopped r (by simp)]
              rfl
      | cons q Q =>
          simp only [List.cons_append, List.map_cons, List.head?_cons]
          rw [depicts.deref (member q (by simp)), ok_bind]
          simp only [Cell.node, passed q (by simp), if_true]
          have listed' : cells.filter (fun c => i < c.height) = (P ++ [c]) ++ q :: (Q ++ R) := by
            rw [listed]
            simp
          obtain ⟨last, ends, walked⟩ := ih listed'
            (fun b within => passed b (List.mem_cons_of_mem q within)) (Nat.lt_of_succ_lt_succ enough)
          refine ⟨last, ?_, walked⟩
          rw [List.getLast?_cons_cons]
          exact ends

/-- A list is cut in two by the keys that a descent passes; the head is in the first part. -/
structure Cut (cells A R : List (Cell K V)) (passes : K → Bool) : Prop where
  whole : cells = A ++ R
  head : ∃ h tail, A = h :: tail ∧ maxLevel ≤ h.height ∧ ∀ c ∈ tail, passes c.key = true
  stopped : ∀ r ∈ R, passes r.key = false

theorem descend_ok {s : SkipList K V} {cells A R : List (Cell K V)} {passes : K → Bool}
    (depicts : Depicts s.memory cells (ahead cells) prev)
    (distinct : (cells.map Cell.addr).Nodup) (cut : Cut cells A R passes)
    (size : cells.length ≤ s.length + 1) {n : Nat} (low : n ≤ maxLevel) {c : Cell K V}
    (member : c ∈ A) (high : n ≤ c.height) (update : Update) :
    ∃ last, s.descend passes n c.addr update =
        .ok (last, fun i => if i < n then (lane A i).getLast? else update i) ∧
      (n ≠ 0 → (lane A 0).getLast? = some last) := by
  induction n generalizing c update with
  | zero => exact ⟨c.addr, rfl, fun some' => absurd rfl some'⟩
  | succ n ih =>
      obtain ⟨h, tail, rfl, top, passed⟩ := cut.head
      have within : c ∈ (h :: tail).filter fun c => n < c.height :=
        List.mem_filter.mpr ⟨member, decide_eq_true high⟩
      obtain ⟨P, Q, listed⟩ := List.append_of_mem within
      have whole : cells.filter (fun c => n < c.height) =
          P ++ c :: (Q ++ R.filter fun c => n < c.height) := by
        rw [cut.whole, List.filter_append, listed]
        simp
      -- what follows another node is not the head
      have later : ∀ q ∈ Q, q ∈ tail := by
        intro q inQ
        have inTail : q ∈ ((h :: tail).filter fun c => n < c.height).tail := by
          rw [listed]
          cases P with
          | nil => exact inQ
          | cons p P => simp [inQ]
        rw [List.filter_cons_of_pos (by simp; omega), List.tail_cons] at inTail
        exact List.mem_of_mem_filter inTail
      have enough : Q.length < s.length + 1 := by
        have fewer := (List.filter_sublist (p := fun c : Cell K V => n < c.height)
          (l := cells)).length_le
        rw [whole] at fewer
        simp only [List.length_append, List.length_cons] at fewer
        omega
      obtain ⟨last, ends, walked⟩ := walk_ok depicts distinct low whole
        (fun q inQ => passed q (later q inQ))
        (fun r inR => cut.stopped r (List.mem_of_mem_filter inR)) enough
      have edge : ((h :: tail).filter fun c => n < c.height).getLast? = some last := by
        rw [listed, List.getLast?_append, ends]
        rfl
      have inA := List.mem_filter.mp (List.mem_of_getLast? edge)
      have edge' : (lane (h :: tail) n).getLast? = some last.addr := by
        rw [lane, List.getLast?_map, edge]
        rfl
      obtain ⟨final, descended, lowest⟩ := ih (Nat.le_of_succ_le low) inA.1
        (Nat.le_of_lt (by simpa using inA.2)) (update.set n last.addr)
      refine ⟨final, ?_, fun _ => ?_⟩
      · rw [SkipList.descend, walked, ok_bind, descended]
        congr 2
        funext i
        by_cases below : i < n
        · rw [if_pos below, if_pos (Nat.lt_succ_of_lt below)]
        · rw [if_neg below, Update.set]
          by_cases here : i = n
          · rw [if_pos here, if_pos (here ▸ Nat.lt_succ_self n), here, edge']
          · rw [if_neg here, if_neg (by omega)]
      · cases n with
        | zero =>
            have same : final = last.addr := by
              have here := Except.ok.inj descended
              exact (congrArg Prod.fst here).symm
            rw [same, edge']
        | succ n => exact lowest (Nat.succ_ne_zero n)

section

variable {cells : List (Cell K V)} {next : Nat → Addr → Option Addr} {update : Update}
  {edge : Nat → Cell K V} {levels : List Nat}

/-- The predecessors are nodes of the list, and each level is visited once. -/
structure Edges (cells : List (Cell K V)) (update : Update) (edge : Nat → Cell K V)
    (levels : List Nat) : Prop where
  low : ∀ i ∈ levels, i < maxLevel
  found : ∀ i ∈ levels, edge i ∈ cells ∧ update i = some (edge i).addr
  once : levels.Nodup

theorem Edges.tail {i : Nat} (edges : Edges cells update edge (i :: levels)) :
    Edges cells update edge levels where
  low j member := edges.low j (List.mem_cons_of_mem i member)
  found j member := edges.found j (List.mem_cons_of_mem i member)
  once := (List.nodup_cons.mp edges.once).2

theorem Edges.get {i : Nat} (edges : Edges cells update edge (i :: levels)) :
    update.get i = .ok (edge i).addr := by
  rw [Update.get, (edges.found i List.mem_cons_self).2]

theorem linkLevels_ok {new : Cell K V} (depicts : Depicts mem cells next prev)
    (member : new ∈ cells) (edges : Edges cells update edge levels)
    (other : ∀ i ∈ levels, (edge i).addr ≠ new.addr) :
    ∃ mem', SkipList.linkLevels update new.addr levels mem = .ok mem' ∧ Confined mem mem' ∧
      Depicts mem' cells (fun i a =>
        if i ∈ levels then
          if a = new.addr then next i (edge i).addr
          else if a = (edge i).addr then some new.addr
          else next i a
        else next i a) prev := by
  induction levels generalizing mem next with
  | nil => exact ⟨mem, rfl, fun _ unused => unused, depicts.congr (by simp) (by simp)⟩
  | cons i levels ih =>
      have low := edges.low i List.mem_cons_self
      have pred := (edges.found i List.mem_cons_self).1
      have apart := other i List.mem_cons_self
      obtain ⟨mem₁, set₁, confined₁, depicts₁⟩ :=
        depicts.setForward member low (next i (edge i).addr)
      obtain ⟨mem₂, set₂, confined₂, depicts₂⟩ := depicts₁.setForward pred low (some new.addr)
      obtain ⟨mem₃, linked, confined₃, depicts₃⟩ := ih depicts₂ edges.tail
        fun j later => other j (List.mem_cons_of_mem i later)
      refine ⟨mem₃, ?_, (confined₁.trans confined₂).trans confined₃, ?_⟩
      · rw [SkipList.linkLevels, edges.get, ok_bind, depicts.forward pred low, ok_bind, set₁, ok_bind,
          set₂, ok_bind, linked]
      · refine depicts₃.congr (fun c _ j => ?_) fun _ _ => rfl
        have absent := (List.nodup_cons.mp edges.once).1
        by_cases here : j = i
        · subst here
          by_cases new' : c.addr = new.addr
          · simp [absent, new', apart.symm]
          · simp [absent, new']
        · simp [here]

theorem unlinkLevels_ok {node : Cell K V} (depicts : Depicts mem cells next prev)
    (member : node ∈ cells) (edges : Edges cells update edge levels) :
    ∃ mem', SkipList.unlinkLevels update node.addr levels mem = .ok mem' ∧ Confined mem mem' ∧
      Depicts mem' cells (fun i a =>
        if i ∈ levels ∧ a = (edge i).addr ∧ next i a = some node.addr then next i node.addr
        else next i a) prev := by
  induction levels generalizing mem next with
  | nil => exact ⟨mem, rfl, fun _ unused => unused, depicts.congr (by simp) (by simp)⟩
  | cons i levels ih =>
      have low := edges.low i List.mem_cons_self
      have pred := (edges.found i List.mem_cons_self).1
      have absent := (List.nodup_cons.mp edges.once).1
      rw [SkipList.unlinkLevels, edges.get, ok_bind, depicts.forward pred low, ok_bind]
      by_cases points : next i (edge i).addr = some node.addr
      · obtain ⟨mem₁, set₁, confined₁, depicts₁⟩ :=
          depicts.setForward pred low (next i node.addr)
        obtain ⟨mem₂, unlinked, confined₂, depicts₂⟩ := ih depicts₁ edges.tail
        refine ⟨mem₂, ?_, confined₁.trans confined₂, ?_⟩
        · rw [if_pos points, depicts.forward member low, ok_bind, set₁, ok_bind, unlinked]
        · refine depicts₂.congr (fun c _ j => ?_) fun _ _ => rfl
          by_cases here : j = i
          · subst here
            by_cases edge' : c.addr = (edge j).addr
            · simp [absent, edge', points]
            · simp [absent, edge']
          · simp [here]
      · obtain ⟨mem₁, unlinked, confined₁, depicts₁⟩ := ih depicts edges.tail
        refine ⟨mem₁, ?_, confined₁, ?_⟩
        · rw [if_neg points, unlinked]
        · refine depicts₁.congr (fun c _ j => ?_) fun _ _ => rfl
          by_cases here : j = i
          · subst here
            by_cases edge' : c.addr = (edge j).addr
            · simp [absent, edge', points]
            · simp [absent, edge']
          · simp [here]

section

variable {A B : List (Cell K V)} {x : Cell K V}

theorem Depicts.alloc (depicts : Depicts mem (A ++ B) (ahead (A ++ B)) (behind (A ++ B)))
    (distinct : ((A ++ x :: B).map Cell.addr).Nodup) :
    Depicts (mem.store x.addr (some (Node.new x.key x.value))) (A ++ x :: B) (ahead (A ++ B))
      (behind (A ++ B)) := by
  have unused := (nodup_addr_insert.mp distinct).1
  have noLink : ∀ i, ahead (A ++ B) i x.addr = none := fun i =>
    after_of_not_mem fun inLane => unused ((lane_sublist (A ++ B) i).subset inLane)
  have noBack : behind (A ++ B) x.addr = none :=
    after_of_not_mem fun inList => unused (List.mem_reverse.mp inList)
  have moved : ∀ c ∈ A ++ x :: B, c = x ∨ c ∈ A ++ B := by
    intro c member
    simp only [List.mem_append, List.mem_cons] at member ⊢
    tauto
  intro c member
  rw [Memory.store]
  rcases moved c member with rfl | old
  · rw [if_pos rfl]
    simp [Cell.node, Node.new, noLink, noBack]
  · have other : c.addr ≠ x.addr := fun same => unused (same ▸ List.mem_map_of_mem old)
    rw [if_neg other]
    exact depicts c old

theorem linkLevels_ahead (depicts : Depicts mem (A ++ x :: B) (ahead (A ++ B)) prev)
    (distinct : ((A ++ x :: B).map Cell.addr).Nodup)
    (edges : Edges A update edge (List.range x.height))
    (last : ∀ i < x.height, (lane A i).getLast? = some (edge i).addr) :
    ∃ mem', SkipList.linkLevels update x.addr (List.range x.height) mem = .ok mem' ∧
      Confined mem mem' ∧ Depicts mem' (A ++ x :: B) (ahead (A ++ x :: B)) prev := by
  have unused := (nodup_addr_insert.mp distinct).1
  have apart : ∀ i ∈ List.range x.height, (edge i).addr ≠ x.addr := fun i inRange same =>
    unused (same ▸ List.mem_map_of_mem (List.mem_append_left B (edges.found i inRange).1))
  have edges' : Edges (A ++ x :: B) update edge (List.range x.height) :=
    ⟨edges.low, fun i inRange => ⟨List.mem_append_left _ (edges.found i inRange).1,
      (edges.found i inRange).2⟩, edges.once⟩
  obtain ⟨mem', linked, confined, depicts'⟩ := linkLevels_ok depicts (by simp) edges' apart
  refine ⟨mem', linked, confined, depicts'.congr (fun c _ i => ?_) fun _ _ => rfl⟩
  by_cases high : i < x.height
  · rw [if_pos (List.mem_range.mpr high), ahead_insert high (last i high) distinct]
  · rw [if_neg (mt List.mem_range.mp high), ahead_skip high]

theorem linkBackward (depicts : Depicts mem (A ++ x :: B) next (behind (A ++ B)))
    (distinct : ((A ++ x :: B).map Cell.addr).Nodup) {pred : Addr}
    (last : (A.getLast?).map Cell.addr = some pred) :
    ∃ mem' mem'', mem.setBackward x.addr (some pred) = .ok mem' ∧
      Depicts mem' (A ++ x :: B) next (fun b => if b = x.addr then some pred else behind (A ++ B) b) ∧
      SkipList.setBackwardOf mem' ((B.map Cell.addr).head?) (some x.addr) = .ok mem'' ∧
      Confined mem mem'' ∧ Depicts mem'' (A ++ x :: B) next (behind (A ++ x :: B)) := by
  obtain ⟨mem', set', confined', depicts'⟩ :=
    depicts.setBackward (show x ∈ A ++ x :: B by simp) (some pred)
  cases B with
  | nil =>
      refine ⟨mem', mem', set', depicts', rfl, confined', depicts'.congr (fun _ _ _ => rfl) ?_⟩
      intro c _
      rw [behind_insert distinct, last]
      simp
  | cons b B =>
      obtain ⟨mem'', set'', confined'', depicts''⟩ :=
        depicts'.setBackward (show b ∈ A ++ x :: b :: B by simp) (some x.addr)
      refine ⟨mem', mem'', set', depicts', set'', confined'.trans confined'',
        depicts''.congr (fun _ _ _ => rfl) ?_⟩
      intro c _
      have apart : b.addr ≠ x.addr := fun same =>
        (nodup_addr_insert.mp distinct).1 (same ▸ List.mem_map_of_mem (by simp))
      rw [behind_insert distinct, last]
      by_cases here : c.addr = b.addr
      · simp [here, apart]
      · simp [here, Ne.symm here]

/-- Linked out on all levels, the node is in no lane of the others; its own links are left. -/
theorem unlinkLevels_ahead {n : Nat}
    (depicts : Depicts mem (A ++ x :: B) (ahead (A ++ x :: B)) prev)
    (distinct : ((A ++ x :: B).map Cell.addr).Nodup) (edges : Edges A update edge (List.range n))
    (last : ∀ i < n, (lane A i).getLast? = some (edge i).addr) (high : x.height ≤ n) :
    ∃ mem' next', SkipList.unlinkLevels update x.addr (List.range n) mem = .ok mem' ∧
      Confined mem mem' ∧ Depicts mem' (A ++ x :: B) next' prev ∧
      (∀ c ∈ A ++ B, ∀ i, next' i c.addr = ahead (A ++ B) i c.addr) ∧
      ∀ i, next' i x.addr = ahead (A ++ x :: B) i x.addr := by
  have unused := (nodup_addr_insert.mp distinct).1
  have edges' : Edges (A ++ x :: B) update edge (List.range n) :=
    ⟨edges.low, fun i inRange => ⟨List.mem_append_left _ (edges.found i inRange).1,
      (edges.found i inRange).2⟩, edges.once⟩
  obtain ⟨mem', unlinked, confined, depicts'⟩ :=
    unlinkLevels_ok depicts (show x ∈ A ++ x :: B by simp) edges'
  refine ⟨mem', _, unlinked, confined, depicts', fun c member i => ?_, fun i => ?_⟩
  · have other : c.addr ≠ x.addr := fun same => unused (same ▸ List.mem_map_of_mem member)
    by_cases level : i < x.height
    · have below : i < n := Nat.lt_of_lt_of_le level high
      have links := ahead_insert level (last i below) distinct
      by_cases here : c.addr = (edge i).addr
      · have points : ahead (A ++ x :: B) i c.addr = some x.addr := by
          rw [links, if_neg other, if_pos here]
        have taken : ahead (A ++ x :: B) i x.addr = ahead (A ++ B) i c.addr := by
          rw [links, if_pos rfl, here]
        exact (if_pos ⟨List.mem_range.mpr below, here, points⟩).trans taken
      · simp [links, here, other]
    · have same : ahead (A ++ x :: B) i c.addr = ahead (A ++ B) i c.addr := ahead_skip level _
      have elsewhere : ahead (A ++ B) i c.addr ≠ some x.addr := fun points =>
        unused ((lane_sublist (A ++ B) i).subset (mem_of_after points))
      simp [same, elsewhere]
  · have apart : i ∈ List.range n → x.addr ≠ (edge i).addr := fun inRange same =>
      unused (same ▸ List.mem_map_of_mem (List.mem_append_left B (edges.found i inRange).1))
    exact if_neg fun all => apart all.1 all.2.1

theorem unlinkBackward (depicts : Depicts mem (A ++ x :: B) next (behind (A ++ x :: B)))
    (distinct : ((A ++ x :: B).map Cell.addr).Nodup) :
    ∃ mem' prev', SkipList.setBackwardOf mem ((B.map Cell.addr).head?)
        (behind (A ++ x :: B) x.addr) = .ok mem' ∧
      Confined mem mem' ∧ Depicts mem' (A ++ x :: B) next prev' ∧
      ∀ c ∈ A ++ B, prev' c.addr = behind (A ++ B) c.addr := by
  have unused := (nodup_addr_insert.mp distinct).1
  have other : ∀ c ∈ A ++ B, c.addr ≠ x.addr := fun c member same =>
    unused (same ▸ List.mem_map_of_mem member)
  cases B with
  | nil =>
      refine ⟨mem, _, rfl, fun _ unused => unused, depicts, fun c member => ?_⟩
      simp [behind_insert distinct, other c member]
  | cons b B =>
      obtain ⟨mem', set', confined, depicts'⟩ :=
        depicts.setBackward (show b ∈ A ++ x :: b :: B by simp) (behind (A ++ x :: b :: B) x.addr)
      refine ⟨mem', _, set', confined, depicts', fun c member => ?_⟩
      have distinct' := (nodup_addr_insert.mp distinct).2
      by_cases here : c.addr = b.addr
      · simp [here, behind_insert distinct, behind_insert distinct']
      · simp [here, Ne.symm here, behind_insert distinct, other c member]

end

theorem lowerLevel_ok {head : Cell K V} (depicts : Depicts mem cells next prev)
    (member : head ∈ cells) {n : Nat} (low : n ≤ maxLevel) (positive : 1 ≤ n) :
    ∃ l, SkipList.lowerLevel mem head.addr n = .ok l ∧ 1 ≤ l ∧ l ≤ n ∧
      (∀ i, l ≤ i → i < n → next i head.addr = none) ∧
      (l = 1 ∨ next (l - 1) head.addr ≠ none) := by
  induction n with
  | zero => exact absurd positive (by decide)
  | succ n ih =>
      cases n with
      | zero => exact ⟨1, rfl, Nat.le_refl 1, Nat.le_refl 1, fun i _ _ => by omega, Or.inl rfl⟩
      | succ n =>
          rw [SkipList.lowerLevel, depicts.forward member low, ok_bind]
          cases link : next (n + 1) head.addr with
          | none =>
              obtain ⟨l, lowered, positive', bound, given, top⟩ :=
                ih (Nat.le_of_succ_le low) (Nat.succ_pos n)
              refine ⟨l, lowered, positive', Nat.le_succ_of_le bound, fun i above below => ?_, top⟩
              by_cases here : i = n + 1
              · rw [here, link]
              · exact given i above (by omega)
          | some a =>
              refine ⟨n + 2, rfl, by omega, Nat.le_refl _, fun i _ _ => by omega, Or.inr ?_⟩
              show next (n + 1) head.addr ≠ none
              rw [link]
              exact Option.some_ne_none a

theorem freeLoop_ok {P B : List (Cell K V)} (depicts : Depicts mem B (ahead (P ++ B)) prev)
    (distinct : ((P ++ B).map Cell.addr).Nodup) (tall : ∀ c ∈ P ++ B, 0 < c.height) {fuel : Nat}
    (enough : B.length < fuel) :
    ∃ mem', SkipList.freeLoop fuel ((B.map Cell.addr).head?) mem = .ok mem' ∧ Confined mem mem' ∧
      ∀ a, a ∉ B.map Cell.addr → mem' a = mem a := by
  induction B generalizing P mem fuel with
  | nil =>
      obtain ⟨fuel, rfl⟩ := Nat.exists_eq_succ_of_ne_zero (Nat.ne_of_gt enough)
      exact ⟨mem, rfl, fun _ unused => unused, fun _ _ => rfl⟩
  | cons b B ih =>
      obtain ⟨fuel, rfl⟩ := Nat.exists_eq_succ_of_ne_zero
        (Nat.ne_of_gt (Nat.lt_of_le_of_lt (Nat.zero_le _) enough))
      have shifted : P ++ b :: B = (P ++ [b]) ++ B := by simp
      have link := ahead_zero tall distinct
      have apart : b.addr ∉ B.map Cell.addr := by
        rw [nodup_addr_insert, List.map_append, List.mem_append, not_or] at distinct
        exact distinct.1.2
      have rest : Depicts (mem.store b.addr none) B (ahead ((P ++ [b]) ++ B)) prev := by
        intro c within
        have other : c.addr ≠ b.addr := fun same => apart (same ▸ List.mem_map_of_mem within)
        rw [Memory.store, if_neg other, depicts c (List.mem_cons_of_mem b within), shifted]
      obtain ⟨mem', freed, confined, kept⟩ := ih rest (shifted ▸ distinct) (shifted ▸ tall)
        (Nat.lt_of_succ_lt_succ enough)
      refine ⟨mem', ?_, (depicts.confined_store List.mem_cons_self none).trans confined, ?_⟩
      · rw [List.map_cons, List.head?_cons, SkipList.freeLoop,
          depicts.forward List.mem_cons_self (by decide), ok_bind, link, freed]
      · intro a outside
        rw [List.map_cons, List.mem_cons, not_or] at outside
        rw [kept a outside.2, Memory.store, if_neg outside.1]

end

end Zumic.Database
