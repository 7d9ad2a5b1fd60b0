/- Admission of connections (`ConnectionManager::handle_connection`, `connection_registry.rs`).
Tasks of many peers run at once; a step is one section of one of them. -/

import Mathlib.Algebra.Ring.Nat
import Zumic.Lib.Assoc
import Zumic.Lib.Runs
import Zumic.Lib.Tasks

namespace Zumic.Server.Limits

open Lib

structure SocketAddr (ι : Type) where
  ip : ι
  port : UInt16
  deriving DecidableEq

structure ConnectionConfig where
  maxConnections : Nat
  maxConnectionsPerIp : Nat

/-- Where a task stands. The number is the one that `register` gave it. -/
inductive Phase where
  | checked
  | permitted
  | numbered (id : UInt32)
  | registered (id : UInt32)
  | counted (id : UInt32)
  | running (id : UInt32)
  | ended (id : UInt32)
  | unregistered
  | uncounted
  | discounted
  | finished
  | rejected
  deriving DecidableEq

structure Task (ι : Type) where
  addr : SocketAddr ι
  phase : Phase
  deriving DecidableEq

structure ConnectionManager (ι : Type) where
  config : ConnectionConfig
  permits : Nat
  ipConnections : List (ι × UInt32)
  activeConnections : UInt64
  idCounter : UInt32
  connections : List (UInt32 × SocketAddr ι)
  tasks : List (Task ι)

variable {ι : Type} [DecidableEq ι]

namespace ConnectionManager

def new (config : ConnectionConfig) : ConnectionManager ι where
  config := config
  permits := config.maxConnections
  ipConnections := []
  activeConnections := 0
  idCounter := 0
  connections := []
  tasks := []

/-- The limit is compared after a cast to `u32`; an address without an entry always passes. -/
def canAcceptConnection (m : ConnectionManager ι) (addr : SocketAddr ι) : Bool :=
  if m.permits = 0 then false
  else
    match Assoc.get m.ipConnections addr.ip with
    | some counter => !decide (UInt32.ofNat m.config.maxConnectionsPerIp ≤ counter)
    | none => true

def incrementIpConnections (m : ConnectionManager ι) (addr : SocketAddr ι) :
    List (ι × UInt32) :=
  let counter := (Assoc.get m.ipConnections addr.ip).getD 0
  Assoc.insert m.ipConnections addr.ip (counter + 1)

/-- The counter wraps, the number that decides about the entry saturates. -/
def decrementIpConnections (m : ConnectionManager ι) (addr : SocketAddr ι) :
    List (ι × UInt32) :=
  match Assoc.get m.ipConnections addr.ip with
  | some counter =>
      let newCount := counter.toNat - 1
      if newCount = 0 then Assoc.erase m.ipConnections addr.ip
      else Assoc.insert m.ipConnections addr.ip (counter - 1)
  | none => m.ipConnections

def move (m : ConnectionManager ι) (i : Nat) (task : Task ι) (phase : Phase) :
    ConnectionManager ι :=
  { m with tasks := m.tasks.set i { task with phase := phase } }

/-- The next section of a task; `none` while it waits for a permit and when it has returned. -/
def advance (m : ConnectionManager ι) (i : Nat) (task : Task ι) : Option (ConnectionManager ι) :=
  match task.phase with
  | .checked =>
      if m.permits = 0 then none
      else some ({ m with permits := m.permits - 1 }.move i task .permitted)
  | .permitted =>
      let id := m.idCounter + 1
      some ({ m with idCounter := id }.move i task (.numbered id))
  | .numbered id =>
      some ({ m with connections := Assoc.insert m.connections id task.addr }.move i task
        (.registered id))
  | .registered id =>
      some ({ m with ipConnections := m.incrementIpConnections task.addr }.move i task
        (.counted id))
  | .counted id =>
      some ({ m with activeConnections := m.activeConnections + 1 }.move i task (.running id))
  | .running id => some (m.move i task (.ended id))
  | .ended id =>
      some ({ m with connections := Assoc.erase m.connections id }.move i task .unregistered)
  | .unregistered =>
      some ({ m with ipConnections := m.decrementIpConnections task.addr }.move i task .uncounted)
  | .uncounted =>
      some ({ m with activeConnections := m.activeConnections - 1 }.move i task .discounted)
  | .discounted => some ({ m with permits := m.permits + 1 }.move i task .finished)
  | .finished => none
  | .rejected => none

end ConnectionManager

/-- A new task runs `can_accept_connection`, or a task that has begun goes on. -/
inductive Event (ι : Type) where
  | arrive (addr : SocketAddr ι)
  | go (i : Nat)

def step (m : ConnectionManager ι) : Event ι → Option (ConnectionManager ι)
  | .arrive addr =>
      let phase := if m.canAcceptConnection addr then .checked else .rejected
      some { m with tasks := m.tasks ++ [⟨addr, phase⟩] }
  | .go i =>
      match m.tasks[i]? with
      | some task => m.advance i task
      | none => none

/-- A section: the phase that it takes a task from, the phase that it takes it to, and the tables
that it leaves. -/
inductive Section (m : ConnectionManager ι) (addr : SocketAddr ι) :
    Phase → Phase → ConnectionManager ι → Prop
  | acquire (free : m.permits ≠ 0) :
      Section m addr .checked .permitted { m with permits := m.permits - 1 }
  | number :
      Section m addr .permitted (.numbered (m.idCounter + 1))
        { m with idCounter := m.idCounter + 1 }
  | register (id : UInt32) :
      Section m addr (.numbered id) (.registered id)
        { m with connections := Assoc.insert m.connections id addr }
  | increment (id : UInt32) :
      Section m addr (.registered id) (.counted id)
        { m with ipConnections := m.incrementIpConnections addr }
  | activate (id : UInt32) :
      Section m addr (.counted id) (.running id)
        { m with activeConnections := m.activeConnections + 1 }
  | finish (id : UInt32) : Section m addr (.running id) (.ended id) m
  | unregister (id : UInt32) :
      Section m addr (.ended id) .unregistered
        { m with connections := Assoc.erase m.connections id }
  | decrement :
      Section m addr .unregistered .uncounted
        { m with ipConnections := m.decrementIpConnections addr }
  | deactivate :
      Section m addr .uncounted .discounted { m with activeConnections := m.activeConnections - 1 }
  | release : Section m addr .discounted .finished { m with permits := m.permits + 1 }

theorem advance_cases {m m' : ConnectionManager ι} {i : Nat} {addr : SocketAddr ι} {old : Phase}
    (done : m.advance i ⟨addr, old⟩ = some m') :
    ∃ phase tables, Section m addr old phase tables ∧ m' = tables.move i ⟨addr, old⟩ phase := by
  unfold ConnectionManager.advance at done
  cases old with
  | checked =>
      dsimp only at done
      split at done
      · cases done
      · rename_i free
        exact ⟨_, _, .acquire free, (Option.some.inj done).symm⟩
  | permitted => exact ⟨_, _, .number, (Option.some.inj done).symm⟩
  | numbered id => exact ⟨_, _, .register id, (Option.some.inj done).symm⟩
  | registered id => exact ⟨_, _, .increment id, (Option.some.inj done).symm⟩
  | counted id => exact ⟨_, _, .activate id, (Option.some.inj done).symm⟩
  | running id => exact ⟨_, _, .finish id, (Option.some.inj done).symm⟩
  | ended id => exact ⟨_, _, .unregister id, (Option.some.inj done).symm⟩
  | unregistered => exact ⟨_, _, .decrement, (Option.some.inj done).symm⟩
  | uncounted => exact ⟨_, _, .deactivate, (Option.some.inj done).symm⟩
  | discounted => exact ⟨_, _, .release, (Option.some.inj done).symm⟩
  | finished => cases done
  | rejected => cases done

/-- Past the check and not in the counter of its address yet. -/
def Phase.isPending : Phase → Bool
  | .checked | .permitted | .numbered _ | .registered _ => true
  | _ => false

/-- In the counter of its address. -/
def Phase.isCounted : Phase → Bool
  | .counted _ | .running _ | .ended _ | .unregistered => true
  | _ => false

def Phase.isRunning : Phase → Bool
  | .running _ => true
  | _ => false

namespace ConnectionManager

/-- The tasks of an address in the given phases. -/
def tasksOf (m : ConnectionManager ι) (phases : Phase → Bool) (ip : ι) : Nat :=
  m.tasks.countP fun task => decide (task.addr.ip = ip) && phases task.phase

/-- The handlers that run for an address. -/
def running (m : ConnectionManager ι) (ip : ι) : Nat := m.tasksOf Phase.isRunning ip

def counter (m : ConnectionManager ι) (ip : ι) : Nat :=
  ((Assoc.get m.ipConnections ip).getD 0).toNat

end ConnectionManager

/-- A check that passes leaves room: with those that passed it before and are not counted yet,
the address stays within its limit and within its counter. -/
def Room (m : ConnectionManager ι) : Event ι → Prop
  | .arrive addr =>
      m.canAcceptConnection addr = true →
        m.counter addr.ip + m.tasksOf Phase.isPending addr.ip < m.config.maxConnectionsPerIp ∧
          m.counter addr.ip + m.tasksOf Phase.isPending addr.ip + 1 < 2 ^ 32
  | .go _ => True

instance decidableRoom (m : ConnectionManager ι) : (e : Event ι) → Decidable (Room m e)
  | .arrive addr => inferInstanceAs (Decidable (m.canAcceptConnection addr = true → _ ∧ _))
  | .go _ => inferInstanceAs (Decidable True)

structure Admitted (config : ConnectionConfig) (m : ConnectionManager ι) : Prop where
  config_eq : m.config = config
  exact_counter : ∀ ip, m.counter ip = m.tasksOf Phase.isCounted ip
  within : ∀ ip, m.tasksOf Phase.isCounted ip + m.tasksOf Phase.isPending ip ≤
    min config.maxConnectionsPerIp (2 ^ 32 - 1)

/-- One if the phase is in the class. -/
def weight (phases : Phase → Bool) (phase : Phase) : Nat := if phases phase then 1 else 0

theorem weight_of_true {phases : Phase → Bool} {phase : Phase} (inside : phases phase = true) :
    weight phases phase = 1 := by
  rw [weight, if_pos inside]

theorem weight_of_false {phases : Phase → Bool} {phase : Phase} (outside : phases phase = false) :
    weight phases phase = 0 := by
  rw [weight, if_neg (by simp [outside])]

theorem tasksOf_move {m m' : ConnectionManager ι} {i : Nat} {task : Task ι} {phase : Phase}
    (here : m.tasks[i]? = some task)
    (moved : m'.tasks = m.tasks.set i { task with phase := phase }) (phases : Phase → Bool)
    (ip : ι) :
    m'.tasksOf phases ip + (if task.addr.ip = ip then weight phases task.phase else 0) =
      m.tasksOf phases ip + (if task.addr.ip = ip then weight phases phase else 0) := by
  have count := Tasks.countP_move
    (fun task => decide (task.addr.ip = ip) && phases task.phase) { task with phase := phase } here
  unfold ConnectionManager.tasksOf weight
  rw [moved]
  by_cases own : task.addr.ip = ip
  · simpa [own] using count
  · simpa [own] using count

theorem admitted_move {config : ConnectionConfig} {m m' : ConnectionManager ι}
    (start : Admitted config m) {i : Nat} {task : Task ι} {phase : Phase}
    (here : m.tasks[i]? = some task)
    (moved : m'.tasks = m.tasks.set i { task with phase := phase }) (same : m'.config = m.config)
    (counters : ∀ ip,
      m'.counter ip + (if task.addr.ip = ip then weight Phase.isCounted task.phase else 0) =
        m.counter ip + (if task.addr.ip = ip then weight Phase.isCounted phase else 0))
    (onward : weight Phase.isCounted phase + weight Phase.isPending phase ≤
      weight Phase.isCounted task.phase + weight Phase.isPending task.phase) :
    Admitted config m' := by
  refine ⟨same.trans start.config_eq, fun ip => ?_, fun ip => ?_⟩
  · have count := tasksOf_move here moved Phase.isCounted ip
    have before := start.exact_counter ip
    have after := counters ip
    omega
  · have counted := tasksOf_move here moved Phase.isCounted ip
    have pending := tasksOf_move here moved Phase.isPending ip
    have before := start.within ip
    by_cases own : task.addr.ip = ip
    · simp only [own, if_true] at counted pending
      omega
    · simp only [own, if_false] at counted pending
      omega

theorem counter_of_here {config : ConnectionConfig} {m : ConnectionManager ι}
    (start : Admitted config m) {i : Nat} {task : Task ι} (here : m.tasks[i]? = some task) :
    (task.phase.isCounted = true → 0 < m.counter task.addr.ip) ∧
      (task.phase.isPending = true → m.counter task.addr.ip + 1 < 2 ^ 32) := by
  have exact_counter := start.exact_counter task.addr.ip
  have within := start.within task.addr.ip
  constructor
  · intro counted
    rw [exact_counter]
    exact Tasks.countP_pos_of_here here (by simp [counted])
  · intro pending
    have waits : 0 < m.tasksOf Phase.isPending task.addr.ip :=
      Tasks.countP_pos_of_here here (by simp [pending])
    omega

theorem counter_increment {m : ConnectionManager ι} (addr : SocketAddr ι)
    (fits : m.counter addr.ip + 1 < 2 ^ 32) (ip : ι) :
    ((Assoc.get (m.incrementIpConnections addr) ip).getD 0).toNat =
      m.counter ip + (if addr.ip = ip then 1 else 0) := by
  rw [ConnectionManager.incrementIpConnections, Assoc.get_insert]
  by_cases own : addr.ip = ip
  · subst own
    simp only [if_true, Option.getD_some, UInt32.toNat_add]
    exact Nat.mod_eq_of_lt fits
  · simp [own, ConnectionManager.counter]

theorem counter_decrement {m : ConnectionManager ι} (addr : SocketAddr ι)
    (held : 0 < m.counter addr.ip) (ip : ι) :
    ((Assoc.get (m.decrementIpConnections addr) ip).getD 0).toNat +
      (if addr.ip = ip then 1 else 0) = m.counter ip := by
  unfold ConnectionManager.decrementIpConnections
  cases entry : Assoc.get m.ipConnections addr.ip with
  | none =>
      rw [ConnectionManager.counter, entry] at held
      cases held
  | some counter =>
      have value : m.counter addr.ip = counter.toNat := by
        rw [ConnectionManager.counter, entry]
        rfl
      rw [value] at held
      by_cases own : addr.ip = ip
      · subst own
        rw [value]
        by_cases last : counter.toNat - 1 = 0
        · simp only [last, if_true, Assoc.get_erase, Option.getD_none]
          have one : counter.toNat = 1 := by omega
          simp [one]
        · simp only [last, if_false, Assoc.get_insert, if_true, Option.getD_some]
          have below : (1 : UInt32) ≤ counter := by
            rw [UInt32.le_iff_toNat_le]
            exact held
          rw [UInt32.toNat_sub_of_le _ _ below]
          have one : (1 : UInt32).toNat = 1 := rfl
          omega
      · simp only [own, if_false, Nat.add_zero, ConnectionManager.counter]
        split <;> simp [Assoc.get_erase, Assoc.get_insert, own]

/-- A section that leaves the counters alone moves a task within its class, or out of the
pending and counted ones altogether. -/
theorem admitted_still {config : ConnectionConfig} {m m' : ConnectionManager ι}
    (start : Admitted config m) {i : Nat} {task : Task ι} {phase : Phase}
    (here : m.tasks[i]? = some task)
    (moved : m'.tasks = m.tasks.set i { task with phase := phase }) (same : m'.config = m.config)
    (counters : m'.ipConnections = m.ipConnections)
    (counted : phase.isCounted = task.phase.isCounted)
    (pending : phase.isPending = task.phase.isPending) : Admitted config m' := by
  refine admitted_move start here moved same (fun ip => ?_) ?_
  · simp only [ConnectionManager.counter, counters, weight, counted]
  · simp only [weight, counted, pending, Nat.le_refl]

theorem admitted_advance {config : ConnectionConfig} {m m' : ConnectionManager ι}
    (start : Admitted config m) {i : Nat} {task : Task ι} (here : m.tasks[i]? = some task)
    (done : m.advance i task = some m') : Admitted config m' := by
  obtain ⟨addr, old⟩ := task
  obtain ⟨phase, tables, went, rfl⟩ := advance_cases done
  have room := counter_of_here start here
  cases went with
  | increment id =>
      refine admitted_move start here rfl rfl (fun ip => ?_) (Nat.le_refl 1)
      have added := counter_increment addr (room.2 rfl) ip
      have before : weight Phase.isCounted (.registered id) = 0 := weight_of_false rfl
      have after : weight Phase.isCounted (.counted id) = 1 := weight_of_true rfl
      simp only [ConnectionManager.counter, ConnectionManager.move, before, after] at added ⊢
      simpa using added
  | decrement =>
      refine admitted_move start here rfl rfl (fun ip => ?_) (Nat.zero_le 1)
      have taken := counter_decrement addr (room.1 rfl) ip
      have before : weight Phase.isCounted .unregistered = 1 := weight_of_true rfl
      have after : weight Phase.isCounted .uncounted = 0 := weight_of_false rfl
      simp only [ConnectionManager.counter, ConnectionManager.move, before, after] at taken ⊢
      simpa using taken
  | _ => exact admitted_still start here rfl rfl rfl rfl rfl

theorem tasksOf_arrive (m : ConnectionManager ι) (addr : SocketAddr ι) (phase : Phase)
    (phases : Phase → Bool) (ip : ι) :
    ConnectionManager.tasksOf { m with tasks := m.tasks ++ [⟨addr, phase⟩] } phases ip =
      m.tasksOf phases ip + (if addr.ip = ip then weight phases phase else 0) := by
  simp only [ConnectionManager.tasksOf, List.countP_append, List.countP_singleton, weight]
  by_cases own : addr.ip = ip <;> simp [own]

theorem admitted_step {config : ConnectionConfig} (m : ConnectionManager ι) (e : Event ι)
    (m' : ConnectionManager ι) (start : Admitted config m) (room : Room m e)
    (done : step m e = some m') : Admitted config m' := by
  cases e with
  | arrive addr =>
      unfold step at done
      cases done
      refine ⟨start.config_eq, fun ip => ?_, fun ip => ?_⟩
      · rw [tasksOf_arrive]
        have before := start.exact_counter ip
        have uncounted : weight Phase.isCounted
            (if m.canAcceptConnection addr then Phase.checked else Phase.rejected) = 0 := by
          split <;> rfl
        rw [uncounted, ite_self, Nat.add_zero, ← before]
        rfl
      · rw [tasksOf_arrive, tasksOf_arrive]
        have before := start.within ip
        have uncounted : weight Phase.isCounted .checked = 0 := weight_of_false rfl
        have pending : weight Phase.isPending .checked = 1 := weight_of_true rfl
        have rejected : weight Phase.isCounted .rejected = 0 ∧ weight Phase.isPending .rejected = 0 :=
          ⟨weight_of_false rfl, weight_of_false rfl⟩
        cases passed : m.canAcceptConnection addr with
        | false => simpa [rejected.1, rejected.2] using before
        | true =>
            obtain ⟨limit, fits⟩ := room passed
            rw [start.exact_counter, start.config_eq] at limit
            rw [start.exact_counter] at fits
            by_cases own : addr.ip = ip
            · subst own
              simp only [if_true, uncounted, pending]
              omega
            · simpa [own] using before
  | go i =>
      unfold step at done
      simp only at done
      split at done
      · rename_i task here
        exact admitted_advance start here done
      · cases done

theorem admitted_new (config : ConnectionConfig) :
    Admitted config (ConnectionManager.new config : ConnectionManager ι) := by
  refine ⟨rfl, fun ip => rfl, fun ip => ?_⟩
  exact Nat.zero_le _

theorem running_le_counted (m : ConnectionManager ι) (ip : ι) :
    m.running ip ≤ m.tasksOf Phase.isCounted ip := by
  apply List.countP_mono_left
  intro task _ own
  simp only [Bool.and_eq_true] at own ⊢
  refine ⟨own.1, ?_⟩
  have running := own.2
  cases phase : task.phase with
  | running id => rfl
  | _ =>
      rw [phase] at running
      cases running

theorem running_within_limit (config : ConnectionConfig) (events : List (Event ι))
    (m : ConnectionManager ι)
    (room : Runs.Along step Room (ConnectionManager.new config) events)
    (ran : Runs.run step (ConnectionManager.new config) events = some m) (ip : ι) :
    m.running ip ≤ config.maxConnectionsPerIp := by
  have admitted := Runs.kept_run admitted_step (admitted_new config) room ran
  have within := admitted.within ip
  have counted := running_le_counted m ip
  omega

/-- A task goes from its check until its handler runs. -/
def enter (i : Nat) : List (Event Nat) := [.go i, .go i, .go i, .go i, .go i]

def oneEach : ConnectionConfig := ⟨10, 1⟩

def arrival (port : UInt16) : Event Nat := .arrive ⟨7, port⟩

theorem running_within_limit_second_refused :
    ((Runs.run step (ConnectionManager.new oneEach)
        (arrival 1 :: enter 0 ++ [arrival 2])).map fun m => m.running 7) = some 1 ∧
      ∀ m, Runs.run step (ConnectionManager.new oneEach)
        (arrival 1 :: enter 0 ++ [arrival 2]) = some m → m.running 7 ≤ 1 :=
  ⟨by decide, fun m ran => running_within_limit oneEach _ m (by decide) ran 7⟩

/-- Both arrivals pass the check before either is counted. -/
theorem running_exceeds_limit :
    ¬ ∀ (config : ConnectionConfig) (events : List (Event Nat)) (m : ConnectionManager Nat),
      Runs.run step (ConnectionManager.new config) events = some m →
        ∀ ip, m.running ip ≤ config.maxConnectionsPerIp := by
  intro always
  have two : ((Runs.run step (ConnectionManager.new oneEach)
      ([arrival 1, arrival 2] ++ enter 0 ++ enter 1)).map fun m => m.running 7) = some 2 := by
    decide
  obtain ⟨m, ran, count⟩ := Option.map_eq_some_iff.mp two
  have bound := always oneEach _ m ran 7
  rw [count] at bound
  exact absurd bound (by decide)

end Zumic.Server.Limits
