/- Calls that work under reader and writer guards, which are not re-entrant. -/

namespace Zumic.Lib.Guards

inductive Mode where
  | read
  | write
  deriving DecidableEq

structure Guard (ι : Type) where
  lock : ι
  mode : Mode
  deriving DecidableEq

/-- Two guards of one lock are compatible only if both are for reading. -/
def Guard.Conflicts {ι : Type} (g h : Guard ι) : Prop :=
  g.lock = h.lock ∧ (g.mode = .write ∨ h.mode = .write)

instance {ι : Type} [DecidableEq ι] (g h : Guard ι) : Decidable (g.Conflicts h) :=
  inferInstanceAs (Decidable (_ ∧ _))

/-- What a call comes to: a result, a panic that drops its guards, or a request for a guard that
conflicts with one it holds, which is never granted. -/
inductive Run (σ α : Type) where
  | done (a : α) (s : σ)
  | panicked (s : σ)
  | blocked

def Run.andThen {σ α β : Type} : Run σ α → (α → σ → Run σ β) → Run σ β
  | done a s, next => next a s
  | panicked s, _ => panicked s
  | blocked, _ => blocked

/-- A call as a function of the guards held around it and of the state. -/
def Guarded (ι σ α : Type) : Type := List (Guard ι) → σ → Run σ α

section

variable {ι σ α β : Type}

instance : Monad (Guarded ι σ) where
  pure a := fun _ s => .done a s
  bind m next := fun held s => (m held s).andThen fun a s => next a held s

def read (f : σ → α) : Guarded ι σ α := fun _ s => .done (f s) s

def modify (f : σ → σ) : Guarded ι σ Unit := fun _ s => .done () (f s)

/-- A step that reads the state and changes it. -/
def act (f : σ → α × σ) : Guarded ι σ α := fun _ s => .done (f s).1 (f s).2

def panic : Guarded ι σ α := fun _ s => .panicked s

variable [DecidableEq ι]

/-- Whether a request is granted to a call that holds these guards. -/
def Granted (g : Guard ι) (held : List (Guard ι)) : Prop := ∀ h ∈ held, ¬ g.Conflicts h

instance (g : Guard ι) (held : List (Guard ι)) : Decidable (Granted g held) :=
  inferInstanceAs (Decidable (∀ h ∈ held, _))

/-- A block with its own guard. -/
def hold (g : Guard ι) (body : Guarded ι σ α) : Guarded ι σ α := fun held s =>
  if Granted g held then body (g :: held) s else .blocked

/-- A look-up whose guard lives as long as what it found; it is gone when nothing was found. -/
def borrow (g : Guard ι) (lookup : σ → Option α) (found : α → Guarded ι σ β)
    (absent : Guarded ι σ β) : Guarded ι σ β := fun held s =>
  if Granted g held then
    match lookup s with
    | some a => found a (g :: held) s
    | none => absent held s
  else .blocked

/-- One lock after another, each released before the next is requested. -/
def each (mode : Mode) (visit : ι → Guarded ι σ α) : List ι → Guarded ι σ (List α)
  | [] => pure []
  | lock :: rest => do
      let a ← hold ⟨lock, mode⟩ (visit lock)
      let others ← each mode visit rest
      pure (a :: others)

/-- A walk over locks for reading, which requests the next one while it still holds the last. -/
def sweep (visit : ι → Guarded ι σ α) : List ι → List ι → Guarded ι σ (List α)
  | _, [] => pure []
  | last, lock :: rest => fun held s =>
      if Granted ⟨lock, .read⟩ (last.map (⟨·, .read⟩) ++ held) then
        (visit lock (⟨lock, .read⟩ :: held) s).andThen fun a s =>
          (sweep visit [lock] rest held s).andThen fun others s => .done (a :: others) s
      else .blocked

end

theorem bind_done {ι σ α β : Type} {m : Guarded ι σ α} {next : α → Guarded ι σ β}
    {held : List (Guard ι)} {s s' : σ} {a : α} (ran : m held s = .done a s') :
    (m >>= next) held s = next a held s' := by
  show (m held s).andThen _ = _
  rw [ran]
  rfl

theorem bind_panicked {ι σ α β : Type} {m : Guarded ι σ α} {next : α → Guarded ι σ β}
    {held : List (Guard ι)} {s s' : σ} (ran : m held s = .panicked s') :
    (m >>= next) held s = .panicked s' := by
  show (m held s).andThen _ = _
  rw [ran]
  rfl

theorem bind_blocked {ι σ α β : Type} {m : Guarded ι σ α} {next : α → Guarded ι σ β}
    {held : List (Guard ι)} {s : σ} (ran : m held s = .blocked) :
    (m >>= next) held s = .blocked := by
  show (m held s).andThen _ = _
  rw [ran]
  rfl

theorem hold_granted {ι σ α : Type} [DecidableEq ι] {g : Guard ι} {body : Guarded ι σ α}
    {held : List (Guard ι)} {s : σ} (granted : Granted g held) :
    hold g body held s = body (g :: held) s := by
  unfold hold
  rw [if_pos granted]

theorem hold_blocked {ι σ α : Type} [DecidableEq ι] {g : Guard ι} {body : Guarded ι σ α}
    {held : List (Guard ι)} {s : σ} (refused : ¬ Granted g held) :
    hold g body held s = .blocked := by
  unfold hold
  rw [if_neg refused]

theorem borrow_found {ι σ α β : Type} [DecidableEq ι] {g : Guard ι} {lookup : σ → Option α}
    {found : α → Guarded ι σ β} {absent : Guarded ι σ β} {held : List (Guard ι)} {s : σ} {a : α}
    (granted : Granted g held) (looked : lookup s = some a) :
    borrow g lookup found absent held s = found a (g :: held) s := by
  unfold borrow
  rw [if_pos granted, looked]

theorem borrow_absent {ι σ α β : Type} [DecidableEq ι] {g : Guard ι} {lookup : σ → Option α}
    {found : α → Guarded ι σ β} {absent : Guarded ι σ β} {held : List (Guard ι)} {s : σ}
    (granted : Granted g held) (looked : lookup s = none) :
    borrow g lookup found absent held s = absent held s := by
  unfold borrow
  rw [if_pos granted, looked]

section

variable {ι σ α : Type} [DecidableEq ι] {held : List (Guard ι)} {locks : List ι}

theorem each_read {mode : Mode} (f : ι → σ → α)
    (granted : ∀ lock ∈ locks, Granted ⟨lock, mode⟩ held) (s : σ) :
    each mode (fun lock => read (f lock)) locks held s =
      .done (locks.map fun lock => f lock s) s := by
  induction locks with
  | nil => rfl
  | cons lock rest ih =>
      have here : hold ⟨lock, mode⟩ (read (f lock)) held s = .done (f lock s) s :=
        hold_granted (granted lock List.mem_cons_self)
      have others := ih fun lock' member => granted lock' (List.mem_cons_of_mem lock member)
      unfold each
      rw [bind_done here, bind_done others]
      rfl

theorem each_modify {mode : Mode} (f : ι → σ → σ)
    (granted : ∀ lock ∈ locks, Granted ⟨lock, mode⟩ held) (s : σ) :
    each mode (fun lock => modify (f lock)) locks held s =
      .done (locks.map fun _ => ()) (locks.foldl (fun s lock => f lock s) s) := by
  induction locks generalizing s with
  | nil => rfl
  | cons lock rest ih =>
      have here : hold ⟨lock, mode⟩ (modify (f lock)) held s = .done () (f lock s) :=
        hold_granted (granted lock List.mem_cons_self)
      have others := ih (fun lock' member => granted lock' (List.mem_cons_of_mem lock member))
        (f lock s)
      unfold each
      rw [bind_done here, bind_done others]
      rfl

end

section

variable {ι σ α β : Type}

/-- With these guards held, a call that starts under `P` returns, under `Q`. -/
def Triple (held : List (Guard ι)) (P : σ → Prop) (m : Guarded ι σ α) (Q : α → σ → Prop) : Prop :=
  ∀ s, P s → ∃ a s', m held s = .done a s' ∧ Q a s'

variable {held : List (Guard ι)} {P : σ → Prop} {Q : α → σ → Prop}

theorem Triple.consequence {P' : σ → Prop} {Q' : α → σ → Prop} {m : Guarded ι σ α}
    (triple : Triple held P m Q) (before : ∀ s, P' s → P s) (after : ∀ a s, Q a s → Q' a s) :
    Triple held P' m Q' := by
  intro s start
  obtain ⟨a, s', ran, done⟩ := triple s (before s start)
  exact ⟨a, s', ran, after a s' done⟩

theorem Triple.skip (a : α) : Triple held P (Pure.pure a : Guarded ι σ α) fun _ => P := by
  intro s start
  exact ⟨a, s, rfl, start⟩

theorem Triple.bind {m : Guarded ι σ α} {next : α → Guarded ι σ β} {R : β → σ → Prop}
    (first : Triple held P m Q) (second : ∀ a, Triple held (Q a) (next a) R) :
    Triple held P (m >>= next) R := by
  intro s start
  obtain ⟨a, s', ran, mid⟩ := first s start
  obtain ⟨b, s'', ran', done⟩ := second a s' mid
  exact ⟨b, s'', (bind_done ran).trans ran', done⟩

theorem Triple.read (f : σ → α) (after : ∀ s, P s → Q (f s) s) :
    Triple held P (Guards.read f) Q := by
  intro s start
  exact ⟨f s, s, rfl, after s start⟩

theorem Triple.modify {R : Unit → σ → Prop} (f : σ → σ) (after : ∀ s, P s → R () (f s)) :
    Triple held P (Guards.modify f) R := by
  intro s start
  exact ⟨(), f s, rfl, after s start⟩

theorem Triple.act (f : σ → α × σ) (after : ∀ s, P s → Q (f s).1 (f s).2) :
    Triple held P (Guards.act f) Q := by
  intro s start
  exact ⟨(f s).1, (f s).2, rfl, after s start⟩

theorem granted_nil (g : Guard ι) : Granted g [] := by
  intro h member
  cases member

theorem granted_read {lock : ι} {last : List ι} (granted : Granted ⟨lock, .read⟩ held) :
    Granted ⟨lock, .read⟩ (last.map (⟨·, .read⟩) ++ held) := by
  intro h member
  rcases List.mem_append.mp member with reading | member
  · obtain ⟨other, -, rfl⟩ := List.mem_map.mp reading
    rintro ⟨-, writing | writing⟩
    · cases writing
    · cases writing
  · exact granted h member

theorem sweep_read [DecidableEq ι] {last locks : List ι} (f : ι → σ → α)
    (granted : ∀ lock ∈ locks, Granted ⟨lock, .read⟩ held) (s : σ) :
    sweep (fun lock => Guards.read (f lock)) last locks held s =
      .done (locks.map fun lock => f lock s) s := by
  induction locks generalizing last with
  | nil => rfl
  | cons lock rest ih =>
      have others := @ih [lock] fun lock' member => granted lock' (List.mem_cons_of_mem lock member)
      unfold sweep
      rw [if_pos (granted_read (granted lock List.mem_cons_self))]
      show (sweep _ [lock] rest held s).andThen _ = _
      rw [others]
      rfl

variable [DecidableEq ι]

theorem Triple.hold {g : Guard ι} {body : Guarded ι σ α} (granted : Granted g held)
    (inside : Triple (g :: held) P body Q) : Triple held P (Guards.hold g body) Q := by
  intro s start
  obtain ⟨a, s', ran, done⟩ := inside s start
  refine ⟨a, s', ?_, done⟩
  rw [hold_granted granted, ran]

theorem Triple.borrow {γ : Type} {g : Guard ι} {lookup : σ → Option γ}
    {found : γ → Guarded ι σ α} {absent : Guarded ι σ α} (granted : Granted g held)
    (present : ∀ c, Triple (g :: held) (fun s => P s ∧ lookup s = some c) (found c) Q)
    (missing : Triple held (fun s => P s ∧ lookup s = none) absent Q) :
    Triple held P (Guards.borrow g lookup found absent) Q := by
  intro s start
  cases looked : lookup s with
  | none =>
      rw [borrow_absent granted looked]
      exact missing s ⟨start, looked⟩
  | some c =>
      rw [borrow_found granted looked]
      exact present c s ⟨start, looked⟩

theorem Triple.each {mode : Mode} {visit : ι → Guarded ι σ α} {locks : List ι}
    (granted : ∀ lock ∈ locks, Granted ⟨lock, mode⟩ held)
    (inside : ∀ lock ∈ locks, Triple (⟨lock, mode⟩ :: held) P (visit lock) fun _ => P) :
    Triple held P (Guards.each mode visit locks) fun _ => P := by
  induction locks with
  | nil => exact Triple.skip []
  | cons lock rest ih =>
      have here : Triple held P (Guards.hold ⟨lock, mode⟩ (visit lock)) fun _ => P :=
        Triple.hold (granted lock List.mem_cons_self) (inside lock List.mem_cons_self)
      have others := ih (fun lock' member => granted lock' (List.mem_cons_of_mem _ member))
        (fun lock' member => inside lock' (List.mem_cons_of_mem _ member))
      exact here.bind fun a => others.bind fun as => Triple.skip (a :: as)

theorem Triple.sweep {visit : ι → Guarded ι σ α} {last locks : List ι}
    (granted : ∀ lock ∈ locks, Granted ⟨lock, .read⟩ held)
    (inside : ∀ lock ∈ locks, Triple (⟨lock, .read⟩ :: held) P (visit lock) fun _ => P) :
    Triple held P (Guards.sweep visit last locks) fun _ => P := by
  induction locks generalizing last with
  | nil => exact Triple.skip []
  | cons lock rest ih =>
      intro s start
      obtain ⟨a, s', ran, mid⟩ := inside lock List.mem_cons_self s start
      have others := @ih [lock] (fun lock' member => granted lock' (List.mem_cons_of_mem _ member))
        (fun lock' member => inside lock' (List.mem_cons_of_mem _ member))
      obtain ⟨as, s'', ran', done⟩ := others s' mid
      refine ⟨a :: as, s'', ?_, done⟩
      unfold Guards.sweep
      rw [if_pos (granted_read (granted lock List.mem_cons_self)), ran]
      show (Guards.sweep visit [lock] rest held s').andThen _ = _
      rw [ran']
      rfl

end

end Zumic.Lib.Guards
