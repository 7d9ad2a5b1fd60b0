/- The element that follows another one in a list without repetitions. -/

namespace Zumic.Lib.Successor

variable {α : Type} [DecidableEq α]

/-- The element behind the first occurrence of `a`. -/
def after : List α → α → Option α
  | [], _ => none
  | b :: l, a => if b = a then l.head? else after l a

theorem after_of_not_mem {l : List α} {a : α} (absent : a ∉ l) : after l a = none := by
  induction l with
  | nil => rfl
  | cons b l ih =>
      rw [List.mem_cons, not_or] at absent
      rw [after, if_neg (Ne.symm absent.1), ih absent.2]

theorem mem_of_after {l : List α} {a b : α} (follows : after l a = some b) : b ∈ l := by
  induction l with
  | nil => cases follows
  | cons c l ih =>
      rw [after] at follows
      split at follows
      · exact List.mem_cons_of_mem _ (List.mem_of_mem_head? follows)
      · exact List.mem_cons_of_mem _ (ih follows)

theorem after_middle {before behind : List α} {a : α} (first : a ∉ before) :
    after (before ++ a :: behind) a = behind.head? := by
  induction before with
  | nil => rw [List.nil_append, after, if_pos rfl]
  | cons b before ih =>
      rw [List.mem_cons, not_or] at first
      rw [List.cons_append, after, if_neg (Ne.symm first.1), ih first.2]

omit [DecidableEq α] in
theorem neighbours_once {before behind : List α} {p x : α}
    (distinct : (before ++ p :: x :: behind).Nodup) :
    p ∉ before ∧ x ∉ before ++ p :: behind := by
  have moved : (before ++ p :: x :: behind).Perm (x :: (before ++ p :: behind)) := by
    have shifted : before ++ p :: x :: behind = before ++ [p] ++ x :: behind := by simp
    have plain : before ++ p :: behind = before ++ [p] ++ behind := by simp
    rw [shifted, plain]
    exact List.perm_middle
  refine ⟨fun member => ?_, (List.nodup_cons.mp (moved.nodup distinct)).1⟩
  exact (List.nodup_append.mp distinct).2.2 p member p List.mem_cons_self rfl

theorem after_insert {before behind : List α} {p x : α}
    (distinct : (before ++ p :: x :: behind).Nodup) (a : α) :
    after (before ++ p :: x :: behind) a =
      if a = x then after (before ++ p :: behind) p
      else if a = p then some x
      else after (before ++ p :: behind) a := by
  obtain ⟨first, fresh⟩ := neighbours_once distinct
  simp only [List.mem_append, List.mem_cons, not_or] at fresh
  by_cases new : a = x
  · subst new
    have absent : a ∉ before ++ [p] := by simp [fresh]
    have shifted : before ++ p :: a :: behind = before ++ [p] ++ a :: behind := by simp
    rw [if_pos rfl, shifted, after_middle absent, after_middle first]
  · rw [if_neg new]
    by_cases here : a = p
    · subst here
      rw [if_pos rfl, after_middle first]
      rfl
    · rw [if_neg here]
      clear first fresh distinct
      induction before with
      | nil =>
          rw [List.nil_append, List.nil_append, after, if_neg (Ne.symm here), after,
            if_neg (Ne.symm new), after, if_neg (Ne.symm here)]
      | cons b before ih =>
          rw [List.cons_append, List.cons_append, after, after, ih]
          have heads : (before ++ p :: x :: behind).head? = (before ++ p :: behind).head? := by
            cases before <;> rfl
          rw [heads]

end Zumic.Lib.Successor
