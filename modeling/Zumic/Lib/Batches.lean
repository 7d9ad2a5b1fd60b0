/- A batch that is filled from rows of items, where every row is offered several times. -/

namespace Zumic.Lib.Batches

variable {α : Type}

section

variable (batch : Nat)

/-- Offers a row `k` times, as long as the batch is not full. -/
def offerRow (row : List α) : Nat → List α → List α
  | 0, taken => taken
  | k + 1, taken =>
      if batch ≤ (taken ++ row).length then taken ++ row else offerRow row k (taken ++ row)

/-- Offers one row after another, each as a whole. -/
def offerRows (k : Nat) : List (List α) → List α → List α
  | [], taken => taken
  | row :: rows, taken =>
      if batch ≤ (offerRow batch row k taken).length then offerRow batch row k taken
      else offerRows k rows (offerRow batch row k taken)

/-- All offers, of which as many are taken as fit. -/
def takeRows (k : Nat) (rows : List (List α)) : List α :=
  (rows.flatMap fun row => (List.replicate k row).flatten).take batch

/-- The sizes come to `left` exactly before they go beyond it. -/
def FillsUp : Nat → List Nat → Prop
  | _, [] => True
  | left, n :: sizes => n = left ∨ n < left ∧ FillsUp (left - n) sizes

/-- The first row that is not empty. -/
def firstRow (rows : List (List α)) : List α := (rows.find? fun row => !row.isEmpty).getD []

/-- No item is offered twice before the batch is full. -/
def Once (k : Nat) (rows : List (List α)) : Prop :=
  k ≤ 1 ∨ firstRow rows = [] ∨ batch ≤ (firstRow rows).length

end

section

variable {batch k : Nat} {rows : List (List α)}

theorem firstRow_nil_cons (rows : List (List α)) : firstRow ([] :: rows) = firstRow rows := rfl

theorem firstRow_cons {row : List α} (some' : row ≠ []) (rows : List (List α)) :
    firstRow (row :: rows) = row := by
  cases row with
  | nil => exact absurd rfl some'
  | cons a row => rfl

theorem offerRow_nil (k : Nat) {taken : List α} (space : taken.length < batch) :
    offerRow batch [] k taken = taken := by
  induction k with
  | zero => rfl
  | succ k ih => rw [offerRow, List.append_nil, if_neg (by omega), ih]

theorem offerRows_nil_cons (b0 : 0 < batch) (k : Nat) (rows : List (List α)) :
    offerRows batch k ([] :: rows) [] = offerRows batch k rows [] := by
  rw [offerRows, offerRow_nil k b0, if_neg (by rw [List.length_nil]; omega)]

theorem prefix_offerRow (row : List α) (k : Nat) (taken : List α) :
    taken <+: offerRow batch row k taken := by
  induction k generalizing taken with
  | zero => exact List.prefix_refl taken
  | succ k ih =>
      rw [offerRow]
      split
      · exact List.prefix_append taken row
      · exact (List.prefix_append taken row).trans (ih _)

theorem prefix_offerRows (k : Nat) (rows : List (List α)) (taken : List α) :
    taken <+: offerRows batch k rows taken := by
  induction rows generalizing taken with
  | nil => exact List.prefix_refl taken
  | cons row rows ih =>
      rw [offerRows]
      split
      · exact prefix_offerRow row k taken
      · exact (prefix_offerRow row k taken).trans (ih _)

theorem offerRows_one (taken : List α) (space : taken.length < batch)
    (distinct : (taken ++ rows.flatten).Nodup) :
    (offerRows batch 1 rows taken).Nodup ∧
      ((offerRows batch 1 rows taken).length ≤ batch ↔
        FillsUp (batch - taken.length) (rows.map List.length)) ∧
      (FillsUp (batch - taken.length) (rows.map List.length) →
        offerRows batch 1 rows taken = (taken ++ rows.flatten).take batch) := by
  induction rows generalizing taken with
  | nil =>
      refine ⟨by rw [offerRows]; simpa using distinct, ?_, ?_⟩
      · exact ⟨fun _ => trivial, fun _ => by rw [offerRows]; omega⟩
      · intro _
        rw [offerRows, List.flatten_nil, List.append_nil, List.take_of_length_le (by omega)]
  | cons row rows ih =>
      have one : offerRow batch row 1 taken = taken ++ row := by
        rw [offerRow]
        split
        · rfl
        · rfl
      rw [List.flatten_cons, ← List.append_assoc] at distinct ⊢
      rw [offerRows, one, List.map_cons, FillsUp]
      split
      · rename_i full
        have front := List.nodup_append.mp distinct
        rw [List.length_append] at full ⊢
        refine ⟨front.1, ⟨fun size => Or.inl (by omega), ?_⟩, ?_⟩
        · rintro (exact' | ⟨less, -⟩)
          · omega
          · omega
        · rintro (exact' | ⟨less, -⟩)
          · rw [List.take_append_of_le_length (by rw [List.length_append]; omega),
              List.take_of_length_le (by rw [List.length_append]; omega)]
          · omega
      · rename_i space'
        rw [Nat.not_le] at space'
        obtain ⟨nodup, size, taken'⟩ := ih (taken ++ row) space' distinct
        rw [List.length_append] at space' size taken'
        rw [← Nat.sub_sub] at size taken'
        refine ⟨nodup, size.trans ⟨fun rest => Or.inr ⟨by omega, rest⟩, ?_⟩, ?_⟩
        · rintro (exact' | ⟨-, rest⟩)
          · omega
          · exact rest
        · rintro (exact' | ⟨-, rest⟩)
          · omega
          · exact taken' rest

theorem offerRows_zero (b0 : 0 < batch) (rows : List (List α)) :
    offerRows batch 0 rows [] = [] := by
  induction rows with
  | nil => rfl
  | cons row rows ih => rw [offerRows, offerRow, if_neg (by rw [List.length_nil]; omega), ih]

theorem twice_not_nodup {row l : List α} (some' : row ≠ []) (front : row ++ row <+: l) :
    ¬ l.Nodup := by
  intro distinct
  obtain ⟨a, member⟩ := List.exists_mem_of_ne_nil row some'
  exact (List.nodup_append.mp (distinct.sublist front.sublist)).2.2 a member a member rfl

/-- Whole rows fill a batch without repetitions and without going beyond it exactly when no row is
offered twice and the sizes fit. -/
theorem offerRows_iff (b0 : 0 < batch) (small : ∀ row ∈ rows, row.length ≤ batch)
    (distinct : rows.flatten.Nodup) :
    ((offerRows batch k rows []).length ≤ batch ∧ (offerRows batch k rows []).Nodup ↔
        Once batch k rows ∧ (k = 0 ∨ FillsUp batch (rows.map List.length))) ∧
      (k ≠ 0 → Once batch k rows → FillsUp batch (rows.map List.length) →
        offerRows batch k rows [] = rows.flatten.take batch) := by
  rcases k with _ | _ | k
  · rw [offerRows_zero b0]
    exact ⟨⟨fun _ => ⟨Or.inl (by omega), Or.inl rfl⟩, fun _ => ⟨Nat.zero_le _, List.nodup_nil⟩⟩,
      fun some' => absurd rfl some'⟩
  · obtain ⟨nodup, size, taken⟩ := @offerRows_one _ batch rows [] b0 distinct
    rw [List.length_nil, Nat.sub_zero] at size taken
    refine ⟨⟨fun fits => ⟨Or.inl (by omega), Or.inr (size.mp fits.1)⟩, fun fits => ?_⟩,
      fun _ _ fills => taken fills⟩
    exact ⟨size.mpr (fits.2.resolve_left (by omega)), nodup⟩
  · induction rows with
    | nil => simp [offerRows, Once, firstRow, FillsUp]
    | cons row rows ih =>
        by_cases none' : row = []
        · subst none'
          have rest := ih (fun row member => small row (List.mem_cons_of_mem _ member)) distinct
          simpa [offerRows_nil_cons b0, Once, firstRow_nil_cons, FillsUp, b0, (Nat.ne_of_lt b0)] using rest
        · have fits := small row List.mem_cons_self
          by_cases full : batch ≤ row.length
          · have exact' : row.length = batch := by omega
            have whole : offerRows batch (k + 2) (row :: rows) [] = row := by
              rw [offerRows, offerRow, List.nil_append, if_pos full, if_pos full]
            have once : Once batch (k + 2) (row :: rows) := by
              refine Or.inr (Or.inr ?_)
              rw [firstRow_cons none']
              exact full
            have fills : FillsUp batch ((row :: rows).map List.length) := Or.inl exact'
            rw [List.flatten_cons] at distinct
            rw [whole]
            refine ⟨⟨fun _ => ⟨once, Or.inr fills⟩, fun _ => ⟨fits, ?_⟩⟩, fun _ _ _ => ?_⟩
            · exact (List.nodup_append.mp distinct).1
            · rw [List.flatten_cons, List.take_append_of_le_length full,
                List.take_of_length_le fits]
          · have front : row ++ row <+: offerRows batch (k + 2) (row :: rows) [] := by
              have first : row ++ row <+: offerRow batch row (k + 2) [] := by
                rw [offerRow, List.nil_append, if_neg full, offerRow]
                split
                · exact List.prefix_refl _
                · exact prefix_offerRow row k _
              rw [offerRows]
              split
              · exact first
              · exact first.trans (prefix_offerRows _ _ _)
            have twice : ¬ Once batch (k + 2) (row :: rows) := by
              rw [Once, firstRow_cons none']
              rintro (few | empty | full')
              · omega
              · exact none' empty
              · exact full full'
            exact ⟨⟨fun both => absurd both.2 (twice_not_nodup none' front),
              fun both => absurd both.1 twice⟩, fun _ once => absurd once twice⟩

theorem offerRows_eq_nil_iff (b0 : 0 < batch) :
    offerRows batch k rows [] = [] ↔ k = 0 ∨ rows.flatten = [] := by
  cases k with
  | zero => exact ⟨fun _ => Or.inl rfl, fun _ => offerRows_zero b0 rows⟩
  | succ k =>
      induction rows with
      | nil => exact ⟨fun _ => Or.inr rfl, fun _ => rfl⟩
      | cons row rows ih =>
          by_cases none' : row = []
          · subst none'
            rw [offerRows_nil_cons b0]
            exact ih
          · have front : row <+: offerRows batch (k + 1) (row :: rows) [] := by
              have first : row <+: offerRow batch row (k + 1) [] := by
                rw [offerRow, List.nil_append]
                split
                · exact List.prefix_refl row
                · exact prefix_offerRow row k row
              rw [offerRows]
              split
              · exact first
              · exact first.trans (prefix_offerRows _ _ _)
            constructor
            · intro empty
              rw [empty, List.prefix_nil] at front
              exact absurd front none'
            · rintro (few | empty)
              · omega
              · rw [List.flatten_cons] at empty
                exact absurd (List.append_eq_nil_iff.mp empty).1 none'

theorem takeRows_eq_nil (nothing : k = 0 ∨ rows.flatten = []) : takeRows batch k rows = [] := by
  have empty : (rows.flatMap fun row => (List.replicate k row).flatten) = [] := by
    rw [List.flatMap_eq_nil_iff]
    intro row member
    rcases nothing with rfl | none'
    · rfl
    · obtain rfl := List.flatten_eq_nil_iff.mp none' row member
      exact List.flatten_eq_nil_iff.mpr fun l among => List.eq_of_mem_replicate among
  rw [takeRows, empty, List.take_nil]

theorem takeRows_iff (distinct : rows.flatten.Nodup) :
    ((takeRows batch k rows).Nodup ↔ Once batch k rows) ∧
      (k ≠ 0 → Once batch k rows → takeRows batch k rows = rows.flatten.take batch) := by
  rcases k with _ | _ | k
  · refine ⟨⟨fun _ => Or.inl (by omega), fun _ => ?_⟩, fun some' => absurd rfl some'⟩
    rw [takeRows_eq_nil (Or.inl rfl)]
    exact List.nodup_nil
  · have once : takeRows batch 1 rows = rows.flatten.take batch := by
      simp [takeRows, List.flatMap, List.flatten]
    rw [once]
    exact ⟨⟨fun _ => Or.inl (by omega), fun _ => distinct.sublist (List.take_sublist _ _)⟩,
      fun _ _ => rfl⟩
  · induction rows with
    | nil => simp [takeRows, Once, firstRow]
    | cons row rows ih =>
        by_cases none' : row = []
        · subst none'
          have rest := ih distinct
          have skip : takeRows batch (k + 2) ([] :: rows) = takeRows batch (k + 2) rows := by
            simp [takeRows]
          rw [skip, Once, firstRow_nil_cons]
          exact rest
        · have shape : takeRows batch (k + 2) (row :: rows) = (row ++ (row ++
              ((List.replicate k row).flatten ++
                rows.flatMap fun row => (List.replicate (k + 2) row).flatten))).take batch := by
            simp [takeRows, List.replicate_succ]
          by_cases full : batch ≤ row.length
          · have once : Once batch (k + 2) (row :: rows) := by
              refine Or.inr (Or.inr ?_)
              rw [firstRow_cons none']
              exact full
            rw [List.flatten_cons] at distinct
            rw [shape, List.take_append_of_le_length full, List.flatten_cons,
              List.take_append_of_le_length full]
            exact ⟨⟨fun _ => once, fun _ =>
              (List.nodup_append.mp distinct).1.sublist (List.take_sublist _ _)⟩, fun _ _ => rfl⟩
          · have twice : ¬ Once batch (k + 2) (row :: rows) := by
              rw [Once, firstRow_cons none']
              rintro (few | empty | full')
              · omega
              · exact none' empty
              · exact full full'
            refine ⟨⟨fun nodup => ?_, fun once => absurd once twice⟩,
              fun _ once => absurd once twice⟩
            exfalso
            cases row with
            | nil => exact none' rfl
            | cons a row =>
                rw [Nat.not_le] at full
                rw [shape, List.take_append, List.take_of_length_le (Nat.le_of_lt full)] at nodup
                obtain ⟨n, left⟩ : ∃ n, batch - (a :: row).length = n + 1 :=
                  ⟨batch - (a :: row).length - 1, by omega⟩
                rw [left] at nodup
                refine (List.nodup_append.mp nodup).2.2 a List.mem_cons_self a ?_ rfl
                rw [List.cons_append, List.take_succ_cons]
                exact List.mem_cons_self

end

end Zumic.Lib.Batches
