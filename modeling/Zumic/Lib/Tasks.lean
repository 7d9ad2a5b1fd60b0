/- A table of tasks of which one moves at a time. -/

namespace Zumic.Lib.Tasks

variable {τ : Type}

theorem countP_move (p : τ → Bool) {tasks : List τ} {i : Nat} {old : τ} (new : τ)
    (here : tasks[i]? = some old) :
    (tasks.set i new).countP p + (if p old then 1 else 0) =
      tasks.countP p + (if p new then 1 else 0) := by
  obtain ⟨inside, read⟩ := List.getElem?_eq_some_iff.mp here
  have held : (if p old then 1 else 0) ≤ tasks.countP p := by
    split
    · rename_i holds
      exact List.countP_pos_iff.mpr ⟨old, List.mem_of_getElem? here, holds⟩
    · exact Nat.zero_le _
  rw [List.countP_set inside, read]
  omega

theorem countP_pos_of_here {p : τ → Bool} {tasks : List τ} {i : Nat} {old : τ}
    (here : tasks[i]? = some old) (holds : p old = true) : 0 < tasks.countP p :=
  List.countP_pos_iff.mpr ⟨old, List.mem_of_getElem? here, holds⟩

theorem countP_or {p q : τ → Bool} (apart : ∀ task, p task = true → q task = false)
    (tasks : List τ) :
    tasks.countP (fun task => p task || q task) = tasks.countP p + tasks.countP q := by
  induction tasks with
  | nil => rfl
  | cons task tasks ih =>
      rw [List.countP_cons, List.countP_cons, List.countP_cons, ih]
      cases one : p task with
      | true => simp [apart task one]; omega
      | false => simp; omega

theorem getElem?_move {tasks : List τ} {i j : Nat} {new task : τ}
    (read : (tasks.set i new)[j]? = some task) :
    (j = i ∧ task = new) ∨ (j ≠ i ∧ tasks[j]? = some task) := by
  rw [List.getElem?_set] at read
  by_cases here : i = j
  · rw [if_pos here] at read
    split at read
    · exact .inl ⟨here.symm, (Option.some.inj read).symm⟩
    · cases read
  · rw [if_neg here] at read
    exact .inr ⟨Ne.symm here, read⟩

theorem exists_here {P : τ → Prop} {tasks : List τ} {i : Nat} {old : τ}
    (here : tasks[i]? = some old) :
    (∃ (j : Nat) (task : τ), tasks[j]? = some task ∧ P task) ↔
      P old ∨ ∃ (j : Nat) (task : τ), j ≠ i ∧ tasks[j]? = some task ∧ P task := by
  constructor
  · rintro ⟨j, task, read, holds⟩
    by_cases own : j = i
    · subst own
      obtain rfl := Option.some.inj (here.symm.trans read)
      exact .inl holds
    · exact .inr ⟨j, task, own, read, holds⟩
  · rintro (holds | ⟨j, task, -, read, holds⟩)
    · exact ⟨i, old, here, holds⟩
    · exact ⟨j, task, read, holds⟩

theorem exists_move {P : τ → Prop} {tasks : List τ} {i : Nat} {old : τ} (new : τ)
    (here : tasks[i]? = some old) :
    (∃ (j : Nat) (task : τ), (tasks.set i new)[j]? = some task ∧ P task) ↔
      P new ∨ ∃ (j : Nat) (task : τ), j ≠ i ∧ tasks[j]? = some task ∧ P task := by
  have there : (tasks.set i new)[i]? = some new := by
    obtain ⟨inside, -⟩ := List.getElem?_eq_some_iff.mp here
    rw [List.getElem?_set_self inside]
  rw [exists_here there]
  apply or_congr_right
  constructor
  · rintro ⟨j, task, other, read, holds⟩
    rw [List.getElem?_set_ne (Ne.symm other)] at read
    exact ⟨j, task, other, read, holds⟩
  · rintro ⟨j, task, other, read, holds⟩
    rw [← List.getElem?_set_ne (Ne.symm other)] at read
    exact ⟨j, task, other, read, holds⟩

theorem filterMap_move {β : Type} (f : τ → Option β) {tasks : List τ} {i : Nat} {old : τ}
    (here : tasks[i]? = some old) : ∃ rest, (tasks.filterMap f).Perm ((f old).toList ++ rest) ∧
      ∀ new, ((tasks.set i new).filterMap f).Perm ((f new).toList ++ rest) := by
  obtain ⟨inside, rfl⟩ := List.getElem?_eq_some_iff.mp here
  have first : ∀ (task : τ) (later : List τ),
      (task :: later).filterMap f = (f task).toList ++ later.filterMap f := by
    intro task later
    cases held : f task with
    | none => exact List.filterMap_cons_none held
    | some b => exact List.filterMap_cons_some held
  have apart : ∀ new : τ, (tasks.set i new).filterMap f =
      (tasks.take i).filterMap f ++ ((f new).toList ++ (tasks.drop (i + 1)).filterMap f) := by
    intro new
    rw [List.set_eq_take_append_cons_drop, if_pos inside, List.filterMap_append, first]
  refine ⟨(tasks.take i).filterMap f ++ (tasks.drop (i + 1)).filterMap f, ?_, fun new => ?_⟩
  · have same := apart tasks[i]
    rw [List.set_getElem_self] at same
    rw [same]
    exact List.perm_append_comm_assoc _ _ _
  · rw [apart new]
    exact List.perm_append_comm_assoc _ _ _

theorem getElem?_begin {tasks : List τ} {j : Nat} {new task : τ}
    (read : (tasks ++ [new])[j]? = some task) :
    (j = tasks.length ∧ task = new) ∨ (j ≠ tasks.length ∧ tasks[j]? = some task) := by
  rcases Nat.lt_trichotomy j tasks.length with before | here | after
  · rw [List.getElem?_append_left before] at read
    exact .inr ⟨Nat.ne_of_lt before, read⟩
  · subst here
    rw [List.getElem?_concat_length] at read
    exact .inl ⟨rfl, (Option.some.inj read).symm⟩
  · have past : (tasks ++ [new]).length ≤ j := by
      rw [List.length_append]
      exact after
    rw [List.getElem?_eq_none past] at read
    cases read

theorem getElem?_begin_old {tasks : List τ} {j : Nat} {task : τ} (new : τ)
    (read : tasks[j]? = some task) : (tasks ++ [new])[j]? = some task := by
  obtain ⟨inside, -⟩ := List.getElem?_eq_some_iff.mp read
  rw [List.getElem?_append_left inside, read]

end Zumic.Lib.Tasks
