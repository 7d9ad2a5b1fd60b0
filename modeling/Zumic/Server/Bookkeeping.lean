/- The three tables of `ConnectionManager` (`handle_connection`, `register`, `unregister`) against
the handlers that run. What a handler returns decides only what is logged. -/

import Zumic.Server.Limits

namespace Zumic.Server.Limits

open Lib

variable {ι : Type} [DecidableEq ι]

/-- Waiting before `register`, inside `handler.run`, or past the last section on the tables. -/
def Phase.isSettled : Phase → Bool
  | .checked | .permitted | .running _ | .discounted | .finished | .rejected => true
  | _ => false

/-- In the total of active connections. -/
def Phase.isActive : Phase → Bool
  | .running _ | .ended _ | .unregistered | .uncounted => true
  | _ => false

/-- Past `fetch_add` on the counter of the registry. -/
def Phase.isNumbered : Phase → Bool
  | .checked | .permitted | .rejected => false
  | _ => true

/-- The number that a task holds, and the number under which it is in the registry. -/
def Phase.number : Phase → Option UInt32
  | .numbered id | .registered id | .counted id | .running id | .ended id => some id
  | _ => none

def Phase.listed : Phase → Option UInt32
  | .registered id | .counted id | .running id | .ended id => some id
  | _ => none

/-- The entry of an address with `n` connections. -/
def entryOf (n : Nat) : Option UInt32 := if n = 0 then none else some (UInt32.ofNat n)

namespace ConnectionManager

def Settled (m : ConnectionManager ι) : Prop := ∀ task ∈ m.tasks, task.phase.isSettled = true

instance decidableSettled (m : ConnectionManager ι) : Decidable m.Settled :=
  inferInstanceAs (Decidable (∀ task ∈ m.tasks, _))

/-- The tables hold the handlers that run and nothing else. -/
structure Exact (m : ConnectionManager ι) : Prop where
  ips : ∀ ip, Assoc.get m.ipConnections ip = entryOf (m.running ip)
  total : m.activeConnections.toNat = m.tasks.countP fun task => task.phase.isRunning
  registry : ∀ id addr, Assoc.get m.connections id = some addr ↔ ⟨addr, .running id⟩ ∈ m.tasks
  distinct : ∀ (i j : Nat) (addr addr' : SocketAddr ι) (id : UInt32),
    m.tasks[i]? = some ⟨addr, .running id⟩ → m.tasks[j]? = some ⟨addr', .running id⟩ → i = j

/-- Every counter that a task is about to decrement is above zero. -/
def NoUnderflow (m : ConnectionManager ι) : Prop :=
  ∀ task ∈ m.tasks,
    (task.phase = .unregistered →
      ∃ counter, Assoc.get m.ipConnections task.addr.ip = some counter ∧ 0 < counter) ∧
    (task.phase = .uncounted → 0 < m.activeConnections)

/-- Each table in the middle of a run holds the tasks that are past its section on the way in and
not past it on the way out. -/
def Counts (m : ConnectionManager ι) : Prop :=
  ∀ ip, Assoc.get m.ipConnections ip = entryOf (m.tasksOf Phase.isCounted ip)

def Totals (m : ConnectionManager ι) : Prop :=
  m.activeConnections.toNat = m.tasks.countP fun task => task.phase.isActive

def Lists (m : ConnectionManager ι) : Prop :=
  ∀ id addr, Assoc.get m.connections id = some addr ↔
    ∃ (i : Nat) (task : Task ι),
      m.tasks[i]? = some task ∧ task.addr = addr ∧ task.phase.listed = some id

/-- The counter of the registry has counted the tasks that took a number, so that no number was
given twice. -/
structure Numbers (m : ConnectionManager ι) : Prop where
  taken : m.idCounter.toNat = m.tasks.countP fun task => task.phase.isNumbered
  below : ∀ (i : Nat) (task : Task ι) (id : UInt32),
    m.tasks[i]? = some task → task.phase.number = some id → id ≤ m.idCounter
  distinct : ∀ (i j : Nat) (task task' : Task ι) (id : UInt32),
    m.tasks[i]? = some task → m.tasks[j]? = some task' →
      task.phase.number = some id → task'.phase.number = some id → i = j

structure Kept (m : ConnectionManager ι) : Prop where
  counts : m.Counts
  totals : m.Totals
  numbers : m.Numbers
  lists : m.Lists

end ConnectionManager

open ConnectionManager

theorem number_of_listed {phase : Phase} {id : UInt32} (listed : phase.listed = some id) :
    phase.number = some id := by
  cases phase <;> first | exact listed | cases listed

theorem tasksOf_le (m : ConnectionManager ι) (phases : Phase → Bool) (ip : ι) :
    m.tasksOf phases ip ≤ m.tasks.length :=
  List.countP_le_length

omit [DecidableEq ι] in
theorem countP_lt_of_here {p : Task ι → Bool} {tasks : List (Task ι)} {i : Nat} {task : Task ι}
    (here : tasks[i]? = some task) (outside : p task = false) : tasks.countP p < tasks.length := by
  apply lt_of_le_of_ne List.countP_le_length
  intro full
  have inside := List.countP_eq_length.mp full task (List.mem_of_getElem? here)
  rw [outside] at inside
  cases inside

theorem entryOf_succ (n : Nat) : entryOf (n + 1) = some (UInt32.ofNat (n + 1)) :=
  if_neg (Nat.succ_ne_zero n)

section

variable {m : ConnectionManager ι}

theorem entry_increment {n : Nat} (addr : SocketAddr ι)
    (entry : Assoc.get m.ipConnections addr.ip = entryOf n) :
    Assoc.get (m.incrementIpConnections addr) addr.ip = entryOf (n + 1) := by
  rw [incrementIpConnections, Assoc.get_insert, if_pos rfl, entry, entryOf_succ]
  cases n with
  | zero => rfl
  | succ n =>
      rw [entryOf_succ, Option.getD_some, UInt32.ofNat_add (n + 1) 1]
      rfl

theorem entry_decrement {n : Nat} (addr : SocketAddr ι) (small : n + 1 < 2 ^ 32)
    (entry : Assoc.get m.ipConnections addr.ip = entryOf (n + 1)) :
    Assoc.get (m.decrementIpConnections addr) addr.ip = entryOf n := by
  rw [entryOf_succ] at entry
  have value : (UInt32.ofNat (n + 1)).toNat - 1 = n := by
    rw [UInt32.toNat_ofNat_of_lt' small, Nat.add_sub_cancel]
  simp only [decrementIpConnections, entry, value]
  cases n with
  | zero => simp [Assoc.get_erase, entryOf]
  | succ n =>
      rw [if_neg (Nat.succ_ne_zero n), Assoc.get_insert, if_pos rfl, entryOf_succ,
        UInt32.ofNat_add (n + 1) 1]
      exact congrArg some (UInt32.add_sub_cancel _ _)

theorem increment_other {ip : ι} (addr : SocketAddr ι) (other : addr.ip ≠ ip) :
    Assoc.get (m.incrementIpConnections addr) ip = Assoc.get m.ipConnections ip := by
  rw [incrementIpConnections, Assoc.get_insert, if_neg other]

theorem decrement_other {ip : ι} (addr : SocketAddr ι) (other : addr.ip ≠ ip) :
    Assoc.get (m.decrementIpConnections addr) ip = Assoc.get m.ipConnections ip := by
  unfold decrementIpConnections
  split
  · dsimp only
    split
    · rw [Assoc.get_erase, if_neg other]
    · rw [Assoc.get_insert, if_neg other]
  · rfl

end

section

variable {m m' : ConnectionManager ι} {i : Nat} {task : Task ι} {phase : Phase}

theorem counts_still (start : m.Counts) (here : m.tasks[i]? = some task)
    (moved : m'.tasks = m.tasks.set i { task with phase := phase })
    (same : m'.ipConnections = m.ipConnections)
    (counted : phase.isCounted = task.phase.isCounted) : m'.Counts := by
  intro ip
  have count := tasksOf_move here moved Phase.isCounted ip
  simp only [weight, counted] at count
  rw [same, start ip, Nat.add_right_cancel count]

theorem counts_advance (start : m.Counts) (few : m.tasks.length < 2 ^ 32)
    (here : m.tasks[i]? = some task) (done : m.advance i task = some m') : m'.Counts := by
  obtain ⟨addr, old⟩ := task
  obtain ⟨phase, tables, went, rfl⟩ := advance_cases done
  cases went with
  | increment id =>
      intro ip
      have moved : (ConnectionManager.move { m with ipConnections := m.incrementIpConnections addr }
          i ⟨addr, .registered id⟩ (.counted id)).tasks = m.tasks.set i ⟨addr, .counted id⟩ := rfl
      have count := tasksOf_move here moved Phase.isCounted ip
      have before : weight Phase.isCounted (.registered id) = 0 := weight_of_false rfl
      have after : weight Phase.isCounted (.counted id) = 1 := weight_of_true rfl
      rw [before, after] at count
      by_cases own : addr.ip = ip
      · subst own
        simp only [if_true, Nat.add_zero] at count
        rw [count]
        exact entry_increment addr (start addr.ip)
      · rw [if_neg own, if_neg own, Nat.add_zero, Nat.add_zero] at count
        rw [count, ← start ip]
        exact increment_other addr own
  | decrement =>
      intro ip
      have moved : (ConnectionManager.move { m with ipConnections := m.decrementIpConnections addr }
          i ⟨addr, .unregistered⟩ .uncounted).tasks = m.tasks.set i ⟨addr, .uncounted⟩ := rfl
      have count := tasksOf_move here moved Phase.isCounted ip
      have before : weight Phase.isCounted .unregistered = 1 := weight_of_true rfl
      have after : weight Phase.isCounted .uncounted = 0 := weight_of_false rfl
      rw [before, after] at count
      by_cases own : addr.ip = ip
      · subst own
        simp only [if_true, Nat.add_zero] at count
        have small : m.tasksOf Phase.isCounted addr.ip < 2 ^ 32 :=
          lt_of_le_of_lt List.countP_le_length few
        have entry := start addr.ip
        rw [← count] at small entry
        exact entry_decrement addr small entry
      · rw [if_neg own, if_neg own, Nat.add_zero, Nat.add_zero] at count
        rw [count, ← start ip]
        exact decrement_other addr own
  | _ => exact counts_still start here rfl rfl rfl

omit [DecidableEq ι] in
theorem totals_still (start : m.Totals) (here : m.tasks[i]? = some task)
    (moved : m'.tasks = m.tasks.set i { task with phase := phase })
    (same : m'.activeConnections = m.activeConnections)
    (active : phase.isActive = task.phase.isActive) : m'.Totals := by
  have count :=
    Tasks.countP_move (fun task => task.phase.isActive) { task with phase := phase } here
  simp only [active] at count
  rw [Totals, same, start, moved]
  omega

theorem totals_advance (start : m.Totals) (few : m.tasks.length < 2 ^ 32)
    (here : m.tasks[i]? = some task) (done : m.advance i task = some m') : m'.Totals := by
  obtain ⟨addr, old⟩ := task
  obtain ⟨phase, tables, went, rfl⟩ := advance_cases done
  have active := fun new => Tasks.countP_move (fun task : Task ι => task.phase.isActive) new here
  have bound : m.activeConnections.toNat ≤ m.tasks.length := by
    rw [start]
    exact List.countP_le_length
  cases went with
  | activate id =>
      have count := active ⟨addr, .running id⟩
      have before : (Phase.counted id).isActive = false := rfl
      have after : (Phase.running id).isActive = true := rfl
      simp only [before, after, if_true, if_false, Bool.false_eq_true] at count
      show (m.activeConnections + 1).toNat = _
      rw [UInt64.toNat_add, start]
      show (_ + 1) % 2 ^ 64 = List.countP _ (m.tasks.set i ⟨addr, .running id⟩)
      rw [start] at bound
      omega
  | deactivate =>
      have count := active ⟨addr, .discounted⟩
      have before : Phase.uncounted.isActive = true := rfl
      have after : Phase.discounted.isActive = false := rfl
      simp only [before, after, if_true, if_false, Bool.false_eq_true] at count
      have held : (1 : UInt64).toNat ≤ m.activeConnections.toNat := by
        rw [start]
        exact Tasks.countP_pos_of_here here before
      show (m.activeConnections - 1).toNat = _
      rw [UInt64.toNat_sub_of_le _ _ (UInt64.le_iff_toNat_le.mpr held), start]
      show _ - 1 = List.countP _ (m.tasks.set i ⟨addr, .discounted⟩)
      omega
  | _ => exact totals_still start here rfl rfl rfl

omit [DecidableEq ι] in
theorem held_before (here : m.tasks[i]? = some task)
    (moved : m'.tasks = m.tasks.set i { task with phase := phase })
    (kept : ∀ id, phase.number = some id → task.phase.number = some id) {j : Nat}
    {task' : Task ι} {id : UInt32} (read : m'.tasks[j]? = some task')
    (held : task'.phase.number = some id) :
    ∃ old, m.tasks[j]? = some old ∧ old.phase.number = some id := by
  rw [moved] at read
  rcases Tasks.getElem?_move read with ⟨rfl, rfl⟩ | ⟨-, read⟩
  · exact ⟨task, here, kept id held⟩
  · exact ⟨task', read, held⟩

omit [DecidableEq ι] in
theorem numbers_still (start : m.Numbers) (here : m.tasks[i]? = some task)
    (moved : m'.tasks = m.tasks.set i { task with phase := phase })
    (same : m'.idCounter = m.idCounter) (numbered : phase.isNumbered = task.phase.isNumbered)
    (kept : ∀ id, phase.number = some id → task.phase.number = some id) : m'.Numbers where
  taken := by
    have count :=
      Tasks.countP_move (fun task => task.phase.isNumbered) { task with phase := phase } here
    simp only [numbered] at count
    rw [same, start.taken, moved]
    omega
  below j task' id read held := by
    obtain ⟨old, read, held⟩ := held_before here moved kept read held
    rw [same]
    exact start.below j old id read held
  distinct j k first second id read read' held held' := by
    obtain ⟨old, read, held⟩ := held_before here moved kept read held
    obtain ⟨old', read', held'⟩ := held_before here moved kept read' held'
    exact start.distinct j k old old' id read read' held held'

/-- The next number is above all that are held, since the counter has not wrapped. -/
theorem numbers_advance (start : m.Numbers) (few : m.tasks.length < 2 ^ 32)
    (here : m.tasks[i]? = some task) (done : m.advance i task = some m') : m'.Numbers := by
  obtain ⟨addr, old⟩ := task
  obtain ⟨phase, tables, went, rfl⟩ := advance_cases done
  cases went with
  | number =>
      have room : m.idCounter.toNat < m.tasks.length := by
        rw [start.taken]
        exact countP_lt_of_here here rfl
      have next : (m.idCounter + 1).toNat = m.idCounter.toNat + 1 := by
        rw [UInt32.toNat_add]
        exact Nat.mod_eq_of_lt (lt_of_le_of_lt room few)
      have above : ∀ (j : Nat) (task' : Task ι) (id : UInt32), m.tasks[j]? = some task' →
          task'.phase.number = some id → id.toNat < (m.idCounter + 1).toNat := by
        intro j task' id read held
        have old := UInt32.le_iff_toNat_le.mp (start.below j task' id read held)
        omega
      refine ⟨?_, fun j task' id read held => ?_,
        fun j k first second id read read' held held' => ?_⟩
      · have count := Tasks.countP_move (fun task : Task ι => task.phase.isNumbered)
          ⟨addr, .numbered (m.idCounter + 1)⟩ here
        have before : Phase.permitted.isNumbered = false := rfl
        have after : (Phase.numbered (m.idCounter + 1)).isNumbered = true := rfl
        simp only [before, after, if_true, if_false, Bool.false_eq_true] at count
        show (m.idCounter + 1).toNat =
          List.countP _ (m.tasks.set i ⟨addr, .numbered (m.idCounter + 1)⟩)
        rw [next, start.taken]
        omega
      · rw [UInt32.le_iff_toNat_le]
        rcases Tasks.getElem?_move read with ⟨-, rfl⟩ | ⟨-, old⟩
        · obtain rfl : m.idCounter + 1 = id := Option.some.inj held
          exact le_rfl
        · exact le_of_lt (above j task' id old held)
      · rcases Tasks.getElem?_move read with ⟨rfl, rfl⟩ | ⟨-, old⟩
        · rcases Tasks.getElem?_move read' with ⟨rfl, -⟩ | ⟨-, old'⟩
          · rfl
          · obtain rfl : m.idCounter + 1 = id := Option.some.inj held
            exact absurd (above k second _ old' held') (lt_irrefl _)
        · rcases Tasks.getElem?_move read' with ⟨rfl, rfl⟩ | ⟨-, old'⟩
          · obtain rfl : m.idCounter + 1 = id := Option.some.inj held'
            exact absurd (above j first _ old held) (lt_irrefl _)
          · exact start.distinct j k first second id old old' held held'
  | _ =>
      refine numbers_still start here rfl rfl rfl (fun id held => ?_)
      first | exact held | cases held

omit [DecidableEq ι] in
theorem lists_still (start : m.Lists) (here : m.tasks[i]? = some task)
    (moved : m'.tasks = m.tasks.set i { task with phase := phase })
    (same : m'.connections = m.connections) (listed : phase.listed = task.phase.listed) :
    m'.Lists := by
  intro id addr
  rw [same, start id addr, moved, Tasks.exists_here here, Tasks.exists_move _ here, listed]

omit [DecidableEq ι] in
theorem not_listed_elsewhere (numbers : m.Numbers) (here : m.tasks[i]? = some task) {id : UInt32}
    (held : task.phase.number = some id) (addr : SocketAddr ι) :
    ¬ ∃ (j : Nat) (task' : Task ι), j ≠ i ∧ m.tasks[j]? = some task' ∧ task'.addr = addr ∧
      task'.phase.listed = some id := by
  rintro ⟨j, task', other, read, -, listed⟩
  exact other (numbers.distinct j i task' task id read here (number_of_listed listed) held)

omit [DecidableEq ι] in
theorem lists_changed (start : m.Lists) (numbers : m.Numbers) (here : m.tasks[i]? = some task)
    (moved : m'.tasks = m.tasks.set i { task with phase := phase }) {id : UInt32}
    (held : task.phase.number = some id)
    (own : ∀ addr, Assoc.get m'.connections id = some addr ↔
      task.addr = addr ∧ phase.listed = some id)
    (others : ∀ id', id ≠ id' → Assoc.get m'.connections id' = Assoc.get m.connections id' ∧
      task.phase.listed ≠ some id' ∧ phase.listed ≠ some id') : m'.Lists := by
  intro id' addr
  rw [moved, Tasks.exists_move _ here]
  by_cases same : id = id'
  · subst same
    rw [or_iff_left (not_listed_elsewhere numbers here held addr)]
    exact own addr
  · obtain ⟨unchanged, before, after⟩ := others id' same
    rw [unchanged, start id' addr, Tasks.exists_here here]
    simp only [before, after, and_false, false_or]

theorem lists_advance (start : m.Lists) (numbers : m.Numbers)
    (here : m.tasks[i]? = some task) (done : m.advance i task = some m') : m'.Lists := by
  obtain ⟨addr, old⟩ := task
  obtain ⟨phase, tables, went, rfl⟩ := advance_cases done
  cases went with
  | register id =>
      refine lists_changed start numbers here rfl rfl (fun addr' => ?_) (fun id' other => ?_)
      · simp [ConnectionManager.move, Phase.listed, Assoc.get_insert]
      · simp [ConnectionManager.move, Phase.listed, Assoc.get_insert, other]
  | unregister id =>
      refine lists_changed start numbers here rfl rfl (fun addr' => ?_) (fun id' other => ?_)
      · simp [ConnectionManager.move, Phase.listed, Assoc.get_erase]
      · simp [ConnectionManager.move, Phase.listed, Assoc.get_erase, other]
  | _ => exact lists_still start here rfl rfl rfl

end

theorem kept_arrive {m : ConnectionManager ι} (start : m.Kept) (addr : SocketAddr ι) {phase : Phase}
    (fresh : phase = .checked ∨ phase = .rejected) :
    Kept { m with tasks := m.tasks ++ [⟨addr, phase⟩] } := by
  have outside : phase.isCounted = false ∧ phase.isActive = false ∧ phase.isNumbered = false ∧
      phase.number = none ∧ phase.listed = none := by
    rcases fresh with rfl | rfl <;> exact ⟨rfl, rfl, rfl, rfl, rfl⟩
  obtain ⟨counted, active, numbered, number, listed⟩ := outside
  have old : ∀ (j : Nat) (task : Task ι) (id : UInt32),
      (m.tasks ++ [⟨addr, phase⟩])[j]? = some task → task.phase.number = some id →
        m.tasks[j]? = some task := by
    intro j task id read held
    rcases Tasks.getElem?_begin read with ⟨-, rfl⟩ | ⟨-, before⟩
    · exact nomatch number.symm.trans held
    · exact before
  refine ⟨fun ip => ?_, ?_, ⟨?_, fun j task id read held => ?_,
    fun j k task task' id read read' held held' => ?_⟩, fun id addr' => ?_⟩
  · rw [tasksOf_arrive, weight_of_false counted, ite_self, Nat.add_zero]
    exact start.counts ip
  · show m.activeConnections.toNat = List.countP _ (m.tasks ++ _)
    rw [List.countP_append, List.countP_singleton, active, start.totals]
    rfl
  · show m.idCounter.toNat = List.countP _ (m.tasks ++ _)
    rw [List.countP_append, List.countP_singleton, numbered, start.numbers.taken]
    rfl
  · exact start.numbers.below j task id (old j task id read held) held
  · exact start.numbers.distinct j k task task' id (old j task id read held)
      (old k task' id read' held') held held'
  · rw [start.lists id addr']
    constructor
    · rintro ⟨j, task, read, same, under⟩
      exact ⟨j, task, Tasks.getElem?_begin_old _ read, same, under⟩
    · rintro ⟨j, task, read, same, under⟩
      exact ⟨j, task, old j task id read (number_of_listed under), same, under⟩

theorem length_step {m m' : ConnectionManager ι} {e : Event ι} (done : step m e = some m') :
    m.tasks.length ≤ m'.tasks.length := by
  cases e with
  | arrive addr =>
      cases done
      show _ ≤ List.length (m.tasks ++ _)
      rw [List.length_append]
      exact Nat.le_add_right _ _
  | go i =>
      simp only [step] at done
      split at done
      · rename_i task here
        obtain ⟨addr, old⟩ := task
        obtain ⟨phase, tables, went, rfl⟩ := advance_cases done
        cases went <;> exact le_of_eq List.length_set.symm
      · cases done

theorem kept_step (m : ConnectionManager ι) (e : Event ι) (m' : ConnectionManager ι)
    (start : m.tasks.length < 2 ^ 32 → m.Kept) (done : step m e = some m')
    (few : m'.tasks.length < 2 ^ 32) : m'.Kept := by
  have before := lt_of_le_of_lt (length_step done) few
  have kept := start before
  cases e with
  | arrive addr =>
      cases done
      apply kept_arrive kept
      split
      · exact .inl rfl
      · exact .inr rfl
  | go i =>
      simp only [step] at done
      split at done
      · rename_i task here
        exact ⟨counts_advance kept.counts before here done,
          totals_advance kept.totals before here done,
          numbers_advance kept.numbers before here done,
          lists_advance kept.lists kept.numbers here done⟩
      · cases done

theorem kept_new (config : ConnectionConfig) :
    Kept (ConnectionManager.new config : ConnectionManager ι) where
  counts _ := rfl
  totals := rfl
  numbers := ⟨rfl, fun _ _ _ read => (nomatch read), fun _ _ _ _ _ read => (nomatch read)⟩
  lists id addr := by
    constructor
    · intro found
      cases found
    · rintro ⟨j, task, read, -⟩
      cases read

theorem exact_of_settled {m : ConnectionManager ι} (kept : m.Kept) (settled : m.Settled) :
    m.Exact := by
  have counted : ∀ task ∈ m.tasks, task.phase.isCounted = task.phase.isRunning := by
    intro task member
    have still := settled task member
    cases phase : task.phase <;> first | rfl | (rw [phase] at still; cases still)
  have active : ∀ task ∈ m.tasks, task.phase.isActive = task.phase.isRunning := by
    intro task member
    have still := settled task member
    cases phase : task.phase <;> first | rfl | (rw [phase] at still; cases still)
  have listed : ∀ task ∈ m.tasks, ∀ id, task.phase.listed = some id → task.phase = .running id := by
    intro task member id under
    have still := settled task member
    cases phase : task.phase with
    | running id' =>
        rw [phase] at under
        exact congrArg Phase.running (Option.some.inj under)
    | registered id' | counted id' | ended id' =>
        rw [phase] at still
        cases still
    | _ =>
        rw [phase] at under
        cases under
  refine ⟨fun ip => ?_, ?_, fun id addr => ?_, fun i j addr addr' id here there => ?_⟩
  · rw [kept.counts ip]
    apply congrArg entryOf
    apply List.countP_congr
    intro task member
    rw [counted task member]
  · rw [kept.totals]
    apply List.countP_congr
    intro task member
    rw [active task member]
  · rw [kept.lists id addr]
    constructor
    · rintro ⟨j, ⟨addr', phase⟩, read, rfl, under⟩
      have member := List.mem_of_getElem? read
      obtain rfl : phase = .running id := listed _ member id under
      exact member
    · intro member
      obtain ⟨j, read⟩ := List.mem_iff_getElem?.mp member
      exact ⟨j, _, read, rfl, rfl⟩
  · exact kept.numbers.distinct i j _ _ id here there rfl rfl

theorem noUnderflow_of_kept {m : ConnectionManager ι} (kept : m.Kept)
    (few : m.tasks.length < 2 ^ 32) : m.NoUnderflow := by
  intro task member
  obtain ⟨i, here⟩ := List.mem_iff_getElem?.mp member
  constructor
  · intro phase
    have counted : task.phase.isCounted = true := by rw [phase]; rfl
    have held : 0 < m.tasksOf Phase.isCounted task.addr.ip :=
      Tasks.countP_pos_of_here here (by rw [counted, Bool.and_true, decide_eq_true rfl])
    have small := lt_of_le_of_lt (tasksOf_le m Phase.isCounted task.addr.ip) few
    refine ⟨_, by rw [kept.counts, entryOf, if_neg (Nat.ne_of_gt held)], ?_⟩
    rw [UInt32.lt_iff_toNat_lt, UInt32.toNat_ofNat_of_lt' small]
    exact held
  · intro phase
    rw [UInt64.lt_iff_toNat_lt, kept.totals]
    exact Tasks.countP_pos_of_here here (by rw [phase]; rfl)

/-- In every state of a run no counter is about to fall below zero, and whenever no task is between
two sections the tables hold exactly the handlers that run. -/
theorem bookkeeping_run (config : ConnectionConfig) (events : List (Event ι))
    (m : ConnectionManager ι) (few : m.tasks.length < 2 ^ 32)
    (ran : Runs.run step (ConnectionManager.new config) events = some m) :
    m.NoUnderflow ∧ (m.Settled → m.Exact) := by
  have kept : m.Kept :=
    Runs.kept_run_always kept_step (fun _ => kept_new config) ran few
  exact ⟨noUnderflow_of_kept kept few, exact_of_settled kept⟩

/-- Two handlers of one address; the first ends while the second is on its way in. -/
def crossing : List (Event Nat) :=
  [arrival 1] ++ enter 0 ++ [arrival 2, .go 1, .go 1, .go 0, .go 1, .go 0, .go 1, .go 0, .go 1,
    .go 0, .go 0]

theorem bookkeeping_run_crossing :
    ∃ m, Runs.run step (ConnectionManager.new ⟨10, 10⟩) crossing = some m ∧ m.Exact ∧
      Assoc.get m.ipConnections 7 = some 1 ∧ m.activeConnections = 1 := by
  obtain ⟨m, ran, shape⟩ : ∃ m, Runs.run step (ConnectionManager.new ⟨10, 10⟩) crossing = some m ∧
      (m.Settled ∧ m.tasks.length < 2 ^ 32 ∧ Assoc.get m.ipConnections 7 = some 1 ∧
        m.activeConnections = 1) := by
    have done : ((Runs.run step (ConnectionManager.new ⟨10, 10⟩) crossing).any fun m =>
        decide (m.Settled ∧ m.tasks.length < 2 ^ 32 ∧ Assoc.get m.ipConnections 7 = some 1 ∧
          m.activeConnections = 1)) = true := by decide
    simpa [Option.any_eq_true] using done
  exact ⟨m, ran, (bookkeeping_run _ _ m shape.2.1 ran).2 shape.1, shape.2.2⟩

end Zumic.Server.Limits
