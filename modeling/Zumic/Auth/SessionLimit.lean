/- Creations of sessions at once (`auth/session/manager.rs`). A step is one section of one call under
the lock of the storage. -/

import Zumic.Auth.Sessions
import Zumic.Lib.Runs
import Zumic.Lib.Tasks

namespace Zumic.Auth.SessionLimit

open Lib Lib.ByteString

/-- `create_session_full` counts, then evicts what it picked, then inserts; the other constructor
goes from `begun` to `returned`. -/
inductive Phase where
  | begun
  | picked (oldest : SessionId)
  | ready
  | returned
  deriving DecidableEq

structure Creation where
  id : SessionId
  origin : Origin
  ip : Option Bytes
  agent : Option Bytes
  phase : Phase

def Creation.username (c : Creation) : Bytes := c.origin.username

def Creation.data (c : Creation) (config : SessionConfig) (instant : Nat) : SessionData :=
  SessionManager.newData config c.origin c.ip c.agent instant

structure Desk where
  config : SessionConfig
  storage : SessionStorage
  calls : List Creation

inductive Event where
  | begin (id : SessionId) (origin : Origin) (ip agent : Option Bytes)
  | advance (i : Nat) (instant : Nat) (listed : SessionStorage)

namespace Desk

def opened (config : SessionConfig) : Desk := ⟨config, [], []⟩

def move (d : Desk) (i : Nat) (c : Creation) (storage : SessionStorage) (phase : Phase) : Desk :=
  { d with storage := storage, calls := d.calls.set i { c with phase := phase } }

/-- The next section of a call; `listed` are the user's sessions in the order of the table. -/
def advance (d : Desk) (i : Nat) (c : Creation) (instant : Nat) (listed : SessionStorage) :
    Option Desk :=
  match c.origin, c.phase with
  | .full _ _, .begun =>
      if listed.Perm (getUserSessions d.storage c.username) then
        match pickEvicted d.config listed with
        | none => some (d.move i c d.storage .ready)
        | some oldest => some (d.move i c d.storage (.picked oldest))
      else none
  | .full _ _, .picked oldest => some (d.move i c (evict d.storage (some oldest)) .ready)
  | .full _ _, .ready =>
      some (d.move i c (Assoc.insert d.storage c.id (c.data d.config instant)) .returned)
  | .token _, .begun =>
      if listed.Perm (getUserSessions d.storage c.username) then
        some
          (d.move i c
            (Assoc.insert (evict d.storage (pickEvicted d.config listed)) c.id
              (c.data d.config instant))
            .returned)
      else none
  | _, _ => none

/-- An identifier that `Uuid::new_v4` draws is new. -/
def step (d : Desk) : Event → Option Desk
  | .begin id origin ip agent =>
      if id ∉ Assoc.keys d.storage ∧ id ∉ d.calls.map Creation.id then
        some { d with calls := d.calls ++ [⟨id, origin, ip, agent, .begun⟩] }
      else none
  | .advance i instant listed => d.calls[i]?.bind fun c => d.advance i c instant listed

def count (d : Desk) (username : Bytes) : Nat := (getUserSessions d.storage username).length

def Bounded (m : Nat) (d : Desk) : Prop := ∀ username, d.count username ≤ m

/-- The step removes no session of a user who has less than `m`. -/
def Proper (m : Nat) (d : Desk) (e : Event) : Prop :=
  ∀ d' ∈ d.step e, ∀ p ∈ d.storage, p.1 ∉ Assoc.keys d'.storage → m ≤ d.count p.2.username

/-- What a call of `create_session_full` saw when it counted still holds: where it evicts a session
that is there, the user has `m` of them; where it inserts, the user has less. -/
def Timely (m : Nat) (d : Desk) : Event → Prop
  | .begin _ _ _ _ => True
  | .advance i _ _ => ∀ c ∈ d.calls[i]?,
      (∀ oldest, c.phase = .picked oldest → oldest ∈ Assoc.keys d.storage →
        m ≤ d.count c.username) ∧
      (c.phase = .ready → d.count c.username < m)

def AllReturned (d : Desk) : Prop := ∀ c ∈ d.calls, c.phase = .returned

instance (d : Desk) : Decidable d.AllReturned :=
  inferInstanceAs (Decidable (∀ c ∈ d.calls, c.phase = .returned))

end Desk

theorem count_insert {storage : SessionStorage} {id : SessionId}
    (fresh : id ∉ Assoc.keys storage) (s : SessionData) (username : Bytes) :
    (getUserSessions (Assoc.insert storage id s) username).length =
      (getUserSessions storage username).length + if s.username = username then 1 else 0 := by
  rw [Assoc.insert_of_not_mem fresh]
  unfold getUserSessions
  rw [List.filter_append, List.length_append]
  by_cases own : s.username = username
  · simp [own]
  · simp [own]

theorem count_erase {storage : SessionStorage} (distinct : (Assoc.keys storage).Nodup)
    {p : SessionId × SessionData} (member : p ∈ storage) (username : Bytes) :
    (getUserSessions (Assoc.erase storage p.1) username).length +
        (if p.2.username = username then 1 else 0) =
      (getUserSessions storage username).length := by
  obtain ⟨after, whole, rest⟩ := Assoc.split_of_get distinct (Assoc.get_of_mem distinct member)
  generalize storage.takeWhile (fun q => q.1 ≠ p.1) = before at whole rest
  rw [rest, whole]
  unfold getUserSessions
  rw [List.filter_append, List.filter_append, List.length_append, List.length_append]
  by_cases own : p.2.username = username
  · simp [own, Nat.add_assoc]
  · simp [own]

theorem oldest_mem {listed : SessionStorage} {id : SessionId} (first : oldest listed = some id) :
    ∃ p ∈ listed, p.1 = id := by
  unfold oldest at first
  obtain ⟨p, head, rfl⟩ := Option.map_eq_some_iff.mp first
  exact ⟨p, (List.mem_insertionSort _).mp (List.mem_of_head? head), rfl⟩

theorem oldest_isSome {listed : SessionStorage} (filled : 0 < listed.length) :
    ∃ id, oldest listed = some id := by
  unfold oldest
  cases sorted : listed.insertionSort fun a b => a.2.createdAt ≤ b.2.createdAt with
  | nil =>
      have same := List.length_insertionSort (fun a b : SessionId × SessionData =>
        a.2.createdAt ≤ b.2.createdAt) listed
      rw [sorted] at same
      simp only [List.length_nil] at same
      omega
  | cons p rest => exact ⟨p.1, rfl⟩

theorem pickEvicted_cases {config : SessionConfig} {m : Nat} {storage listed : SessionStorage}
    {username : Bytes} (limit : config.maxSessionsPerUser = some m) (positive : 1 ≤ m)
    (perm : listed.Perm (getUserSessions storage username)) :
    (pickEvicted config listed = none ∧ (getUserSessions storage username).length < m) ∨
      ∃ p ∈ storage, p.2.username = username ∧ pickEvicted config listed = some p.1 ∧
        m ≤ (getUserSessions storage username).length := by
  have same := perm.length_eq
  unfold pickEvicted
  rw [limit]
  by_cases full : m ≤ listed.length
  · obtain ⟨id, first⟩ := oldest_isSome (Nat.lt_of_lt_of_le positive full)
    obtain ⟨p, member, rfl⟩ := oldest_mem first
    have own := List.mem_filter.mp (perm.mem_iff.mp member)
    refine .inr ⟨p, own.1, of_decide_eq_true own.2, ?_, by omega⟩
    simp only [full, if_true, first]
  · refine .inl ⟨?_, by omega⟩
    simp only [full, if_false]

/-- What a section of a call can do. -/
inductive Section (m : Nat) (d : Desk) (i : Nat) (c : Creation) : Desk → Prop
  | counted (begun : c.phase = .begun) : Section m d i c (d.move i c d.storage .ready)
  | picked (begun : c.phase = .begun) {p : SessionId × SessionData} (member : p ∈ d.storage)
      (own : p.2.username = c.username) : Section m d i c (d.move i c d.storage (.picked p.1))
  | evicted {oldest : SessionId} (chosen : c.phase = .picked oldest) :
      Section m d i c (d.move i c (Assoc.erase d.storage oldest) .ready)
  | inserted (ready : c.phase = .ready) {s : SessionData} (own : s.username = c.username) :
      Section m d i c (d.move i c (Assoc.insert d.storage c.id s) .returned)
  | added (begun : c.phase = .begun) {s : SessionData} (own : s.username = c.username)
      (room : d.count c.username < m) :
      Section m d i c (d.move i c (Assoc.insert d.storage c.id s) .returned)
  | replaced (begun : c.phase = .begun) {s : SessionData} (own : s.username = c.username)
      {p : SessionId × SessionData} (member : p ∈ d.storage)
      (theirs : p.2.username = c.username) (full : m ≤ d.count c.username) :
      Section m d i c
        (d.move i c (Assoc.insert (Assoc.erase d.storage p.1) c.id s) .returned)

theorem data_username (c : Creation) (config : SessionConfig) (instant : Nat) :
    (c.data config instant).username = c.username := by
  unfold Creation.data Creation.username
  cases c.origin <;> rfl

theorem section_of_advance {m : Nat} {d d' : Desk} (limit : d.config.maxSessionsPerUser = some m)
    (positive : 1 ≤ m) {i instant : Nat} {listed : SessionStorage}
    (stepped : d.step (.advance i instant listed) = some d') :
    ∃ c, d.calls[i]? = some c ∧ Section m d i c d' := by
  obtain ⟨c, here, stepped⟩ := Option.bind_eq_some_iff.mp stepped
  refine ⟨c, here, ?_⟩
  have own := data_username c d.config instant
  unfold Desk.advance at stepped
  rcases origin : c.origin with ⟨username, tokenId⟩ | claims
  · rcases phase : c.phase with _ | o | _ | _
    · rw [origin, phase] at stepped
      simp only at stepped
      split at stepped
      · rename_i perm
        rcases pickEvicted_cases limit positive perm with ⟨none_picked, -⟩ |
          ⟨p, member, theirs, one_picked, -⟩
        · rw [none_picked] at stepped
          obtain rfl := Option.some.inj stepped
          exact .counted phase
        · rw [one_picked] at stepped
          obtain rfl := Option.some.inj stepped
          exact .picked phase member theirs
      · cases stepped
    · rw [origin, phase] at stepped
      obtain rfl := Option.some.inj stepped
      exact .evicted phase
    · rw [origin, phase] at stepped
      obtain rfl := Option.some.inj stepped
      exact .inserted phase own
    · rw [origin, phase] at stepped
      cases stepped
  · rcases phase : c.phase with _ | o | _ | _
    · rw [origin, phase] at stepped
      simp only at stepped
      split at stepped
      · rename_i perm
        rcases pickEvicted_cases limit positive perm with ⟨none_picked, room⟩ |
          ⟨p, member, theirs, one_picked, full⟩
        · rw [none_picked] at stepped
          obtain rfl := Option.some.inj stepped
          exact .added phase own room
        · rw [one_picked] at stepped
          obtain rfl := Option.some.inj stepped
          exact .replaced phase own member theirs full
      · cases stepped
    all_goals
      rw [origin, phase] at stepped
      cases stepped

/-- Every session in the table comes from a call that has returned, and so does every session that
a call has picked, of the same user; no two calls have one identifier. -/
structure Kept (d : Desk) : Prop where
  distinct : (Assoc.keys d.storage).Nodup
  ids : ∀ (i j : Nat) (c c' : Creation), d.calls[i]? = some c → d.calls[j]? = some c' →
    c.id = c'.id → i = j
  stored : ∀ p ∈ d.storage, ∃ (j : Nat) (c : Creation), d.calls[j]? = some c ∧
    c.phase = .returned ∧ c.id = p.1 ∧ c.username = p.2.username
  chosen : ∀ (i : Nat) (c : Creation), d.calls[i]? = some c → ∀ oldest,
    c.phase = .picked oldest → ∃ (j : Nat) (c' : Creation), d.calls[j]? = some c' ∧
      c'.phase = .returned ∧ c'.id = oldest ∧ c'.username = c.username

section

variable {m : Nat} {d d' : Desk} {i : Nat} {c : Creation}

theorem kept_opened (config : SessionConfig) : Kept (.opened config) := by
  refine ⟨List.nodup_nil, ?_, ?_, ?_⟩
  · intro i j c c' read
    cases read
  · intro p member
    cases member
  · intro i c read
    cases read

theorem fresh_of_running (kept : Kept d) (here : d.calls[i]? = some c)
    (running : c.phase ≠ .returned) : c.id ∉ Assoc.keys d.storage := by
  intro key
  obtain ⟨p, member, same⟩ := List.mem_map.mp key
  obtain ⟨j, other, there, returned, id, -⟩ := kept.stored p member
  obtain rfl := kept.ids j i other c there here (id.trans same)
  rw [here] at there
  obtain rfl := Option.some.inj there
  exact running returned

theorem username_of_chosen (kept : Kept d) (here : d.calls[i]? = some c) {oldest : SessionId}
    (picked : c.phase = .picked oldest) {p : SessionId × SessionData} (member : p ∈ d.storage)
    (same : p.1 = oldest) : p.2.username = c.username := by
  obtain ⟨j, one, at_j, -, id_one, user_one⟩ := kept.stored p member
  obtain ⟨k, two, at_k, -, id_two, user_two⟩ := kept.chosen i c here oldest picked
  obtain rfl := kept.ids j k one two at_j at_k (by rw [id_one, id_two, same])
  rw [at_j] at at_k
  obtain rfl := Option.some.inj at_k
  rw [← user_one, user_two]

/-- A call moves on, and the table holds old sessions and at most its own new one. -/
theorem kept_move (kept : Kept d) (here : d.calls[i]? = some c) (running : c.phase ≠ .returned)
    {storage : SessionStorage} {phase : Phase} (distinct : (Assoc.keys storage).Nodup)
    (old_or_own : ∀ p ∈ storage, p ∈ d.storage ∨
      (phase = .returned ∧ p.1 = c.id ∧ p.2.username = c.username))
    (choice : ∀ oldest, phase = .picked oldest → ∃ p ∈ d.storage, p.1 = oldest ∧
      p.2.username = c.username) :
    Kept (d.move i c storage phase) := by
  have remain : ∀ (j : Nat) (c' : Creation), d.calls[j]? = some c' → c'.phase = .returned →
      (d.move i c storage phase).calls[j]? = some c' := by
    intro j c' there returned
    have other : j ≠ i := by
      rintro rfl
      rw [here] at there
      obtain rfl := Option.some.inj there
      exact running returned
    exact (List.getElem?_set_ne (Ne.symm other)).trans there
  have stored : ∀ p ∈ d.storage, ∃ (j : Nat) (c' : Creation),
      (d.move i c storage phase).calls[j]? = some c' ∧ c'.phase = .returned ∧ c'.id = p.1 ∧
        c'.username = p.2.username := by
    intro p member
    obtain ⟨j, c', there, returned, rest⟩ := kept.stored p member
    exact ⟨j, c', remain j c' there returned, returned, rest⟩
  have same_id : ∀ (j : Nat) (c' : Creation), (d.move i c storage phase).calls[j]? = some c' →
      ∃ b, d.calls[j]? = some b ∧ b.id = c'.id := by
    intro j c' read
    rcases Tasks.getElem?_move read with ⟨rfl, rfl⟩ | ⟨-, there⟩
    · exact ⟨c, here, rfl⟩
    · exact ⟨c', there, rfl⟩
  refine ⟨distinct, ?_, ?_, ?_⟩
  · intro j k one two at_j at_k same
    obtain ⟨b, old_j, id_j⟩ := same_id j one at_j
    obtain ⟨b', old_k, id_k⟩ := same_id k two at_k
    exact kept.ids j k b b' old_j old_k (by rw [id_j, id_k, same])
  · intro p member
    rcases old_or_own p member with old | ⟨returned, id, user⟩
    · exact stored p old
    · exact ⟨i, { c with phase := phase },
        List.getElem?_set_self (List.getElem?_eq_some_iff.mp here).1, returned, id.symm,
        user.symm⟩
  · intro j c' read oldest picked
    rcases Tasks.getElem?_move read with ⟨rfl, rfl⟩ | ⟨-, there⟩
    · obtain ⟨p, member, rfl, user⟩ := choice oldest picked
      obtain ⟨k, c'', at_k, returned, id, user'⟩ := stored p member
      exact ⟨k, c'', at_k, returned, id, user'.trans user⟩
    · obtain ⟨k, c'', at_k, returned, rest⟩ := kept.chosen j c' there oldest picked
      exact ⟨k, c'', remain k c'' at_k returned, returned, rest⟩

theorem mem_insert_own {storage : SessionStorage} {s : SessionData} (own : s.username = c.username)
    (old : ∀ p ∈ storage, p ∈ d.storage) {p : SessionId × SessionData}
    (member : p ∈ Assoc.insert storage c.id s) :
    p ∈ d.storage ∨ (Phase.returned = .returned ∧ p.1 = c.id ∧ p.2.username = c.username) := by
  rcases Assoc.mem_insert member with rfl | before
  · exact .inr ⟨rfl, rfl, own⟩
  · exact .inl (old p before)

theorem kept_section (kept : Kept d) (here : d.calls[i]? = some c) (ran : Section m d i c d') :
    Kept d' := by
  have erased : ∀ (id : SessionId), ∀ p ∈ Assoc.erase d.storage id, p ∈ d.storage :=
    fun id p member => (Assoc.erase_sublist d.storage id).mem member
  cases ran with
  | counted begun =>
      refine kept_move kept here (by simp [begun]) kept.distinct (fun p old => .inl old) ?_
      intro oldest picked
      cases picked
  | picked begun member own =>
      refine kept_move kept here (by simp [begun]) kept.distinct (fun p old => .inl old) ?_
      intro oldest picked
      obtain rfl := Phase.picked.inj picked
      exact ⟨_, member, rfl, own⟩
  | @evicted oldest chosen =>
      refine kept_move kept here (by simp [chosen]) (Assoc.nodup_keys_erase kept.distinct oldest)
        (fun p member => .inl (erased oldest p member)) ?_
      intro _ picked
      cases picked
  | inserted ready own =>
      refine kept_move kept here (by simp [ready]) (Assoc.nodup_keys_insert kept.distinct _ _)
        (fun p member => mem_insert_own own (fun _ old => old) member) ?_
      intro _ picked
      cases picked
  | added begun own room =>
      refine kept_move kept here (by simp [begun]) (Assoc.nodup_keys_insert kept.distinct _ _)
        (fun p member => mem_insert_own own (fun _ old => old) member) ?_
      intro _ picked
      cases picked
  | @replaced begun s own q member theirs full =>
      refine kept_move kept here (by simp [begun])
        (Assoc.nodup_keys_insert (Assoc.nodup_keys_erase kept.distinct q.1) _ _)
        (fun p new => mem_insert_own own (erased q.1) new) ?_
      intro _ picked
      cases picked

theorem kept_begin (kept : Kept d) {id : SessionId} (new : id ∉ d.calls.map Creation.id)
    (origin : Origin) (ip agent : Option Bytes) :
    Kept { d with calls := d.calls ++ [⟨id, origin, ip, agent, .begun⟩] } := by
  have not_old : ∀ (j : Nat) (c : Creation), d.calls[j]? = some c → c.id ≠ id := by
    intro j c there same
    exact new (same ▸ List.mem_map_of_mem (List.mem_of_getElem? there))
  refine ⟨kept.distinct, ?_, ?_, ?_⟩
  · intro j k one two at_j at_k same
    rcases Tasks.getElem?_begin at_j with ⟨rfl, rfl⟩ | ⟨-, old_j⟩
    · rcases Tasks.getElem?_begin at_k with ⟨rfl, -⟩ | ⟨-, old_k⟩
      · rfl
      · exact absurd same.symm (not_old k two old_k)
    · rcases Tasks.getElem?_begin at_k with ⟨rfl, rfl⟩ | ⟨-, old_k⟩
      · exact absurd same (not_old j one old_j)
      · exact kept.ids j k one two old_j old_k same
  · intro p member
    obtain ⟨j, c, there, rest⟩ := kept.stored p member
    exact ⟨j, c, Tasks.getElem?_begin_old _ there, rest⟩
  · intro j c' read oldest picked
    rcases Tasks.getElem?_begin read with ⟨rfl, rfl⟩ | ⟨-, there⟩
    · cases picked
    · obtain ⟨k, c'', at_k, rest⟩ := kept.chosen j c' there oldest picked
      exact ⟨k, c'', Tasks.getElem?_begin_old _ at_k, rest⟩

theorem mem_keys_insert_of_mem {storage : SessionStorage} {p : SessionId × SessionData}
    (member : p ∈ storage) (id : SessionId) (s : SessionData) :
    p.1 ∈ Assoc.keys (Assoc.insert storage id s) :=
  Assoc.mem_keys_insert.mpr (.inr (List.mem_map_of_mem member))

theorem eq_of_erased {storage : SessionStorage} {p : SessionId × SessionData} {id : SessionId}
    (member : p ∈ storage) (gone : p.1 ∉ Assoc.keys (Assoc.erase storage id)) : p.1 = id := by
  by_contra other
  refine gone (List.mem_map_of_mem ?_)
  rw [Assoc.erase_eq_filter]
  exact List.mem_filter.mpr ⟨member, decide_eq_true other⟩

theorem fresh_of_erased {storage : SessionStorage} {id : SessionId}
    (fresh : id ∉ Assoc.keys storage) (other : SessionId) :
    id ∉ Assoc.keys (Assoc.erase storage other) := by
  intro key
  exact fresh (((Assoc.erase_sublist storage other).map Prod.fst).mem key)

theorem bounded_section (kept : Kept d) (here : d.calls[i]? = some c)
    (ran : Section m d i c d') (bounded : d.Bounded m)
    (room : c.phase = .ready → d.count c.username < m) : d'.Bounded m := by
  intro username
  have before := bounded username
  cases ran with
  | counted begun => exact before
  | picked begun member own => exact before
  | @evicted oldest chosen =>
      have fewer : (getUserSessions (Assoc.erase d.storage oldest) username).length ≤
          d.count username := ((Assoc.erase_sublist d.storage oldest).filter _).length_le
      exact Nat.le_trans fewer before
  | @inserted ready s own =>
      have more := count_insert (fresh_of_running kept here (by simp [ready])) s username
      refine Nat.le_trans (Nat.le_of_eq more) ?_
      split
      · rename_i same
        rw [← same, own]
        exact room ready
      · exact before
  | @added begun s own space =>
      have more := count_insert (fresh_of_running kept here (by simp [begun])) s username
      refine Nat.le_trans (Nat.le_of_eq more) ?_
      split
      · rename_i same
        rw [← same, own]
        exact space
      · exact before
  | @replaced begun s own q member theirs full =>
      have fresh := fresh_of_running kept here (by simp [begun])
      have more := count_insert (fresh_of_erased fresh q.1) s username
      have less := count_erase kept.distinct member username
      refine Nat.le_trans (Nat.le_of_eq more) ?_
      rw [own]
      rw [theirs] at less
      exact Nat.le_trans (Nat.le_of_eq less) before

theorem proper_section (kept : Kept d) (here : d.calls[i]? = some c) (ran : Section m d i c d')
    (timely : ∀ oldest, c.phase = .picked oldest → oldest ∈ Assoc.keys d.storage →
      m ≤ d.count c.username)
    {p : SessionId × SessionData} (member : p ∈ d.storage)
    (gone : p.1 ∉ Assoc.keys d'.storage) : m ≤ d.count p.2.username := by
  have present : p.1 ∈ Assoc.keys d.storage := List.mem_map_of_mem member
  cases ran with
  | counted begun => exact absurd present gone
  | picked begun _ _ => exact absurd present gone
  | evicted chosen =>
      have same := eq_of_erased member gone
      rw [username_of_chosen kept here chosen member same]
      exact timely _ chosen (same ▸ present)
  | inserted ready own => exact absurd (mem_keys_insert_of_mem member _ _) gone
  | added begun own space => exact absurd (mem_keys_insert_of_mem member _ _) gone
  | @replaced begun s own q q_member theirs full =>
      have erased : p.1 ∉ Assoc.keys (Assoc.erase d.storage q.1) := by
        intro key
        exact gone (Assoc.mem_keys_insert.mpr (.inr key))
      have first := Assoc.get_of_mem kept.distinct member
      have second := Assoc.get_of_mem kept.distinct q_member
      rw [eq_of_erased member erased, second] at first
      rw [← Option.some.inj first, theirs]
      exact full

/-- A call that will insert a session of the user. -/
def owes (username : Bytes) (c : Creation) : Bool := c.phase = .ready && c.username = username

/-- The sessions of a user, with those that are sure to be inserted. -/
def promised (d : Desk) (username : Bytes) : Nat :=
  d.count username + d.calls.countP (owes username)

theorem promised_section (kept : Kept d) (here : d.calls[i]? = some c)
    (ran : Section m d i c d') (username : Bytes) :
    promised d username ≤ promised d' username := by
  have moved : ∀ phase, (d.calls.set i { c with phase := phase }).countP (owes username) + _ = _ :=
    fun phase => Tasks.countP_move (owes username) { c with phase := phase } here
  have named : ∀ phase, ({ c with phase := phase } : Creation).username = c.username := fun _ => rfl
  unfold promised
  cases ran with
  | counted begun =>
      have calls := moved .ready
      simp only [owes, begun, reduceCtorEq, decide_false, Bool.false_and, Bool.false_eq_true,
        if_false] at calls
      show d.count username + _ ≤ d.count username + (d.calls.set i _).countP _
      omega
  | @picked begun p member own =>
      have calls := moved (.picked p.1)
      simp only [owes, begun, reduceCtorEq, decide_false, Bool.false_and, Bool.false_eq_true,
        if_false] at calls
      show d.count username + _ ≤ d.count username + (d.calls.set i _).countP _
      omega
  | @evicted oldest chosen =>
      have calls := moved .ready
      simp only [owes, chosen, named, reduceCtorEq, decide_false, Bool.false_and,
        Bool.false_eq_true, if_false, decide_true, Bool.true_and, decide_eq_true_eq] at calls
      show d.count username + _ ≤
        (getUserSessions (Assoc.erase d.storage oldest) username).length +
          (d.calls.set i _).countP _
      by_cases present : oldest ∈ Assoc.keys d.storage
      · obtain ⟨p, member, rfl⟩ := List.mem_map.mp present
        have less := count_erase kept.distinct member username
        rw [username_of_chosen kept here chosen member rfl] at less
        unfold Desk.count
        omega
      · rw [Assoc.erase_of_not_mem present]
        unfold Desk.count
        omega
  | @inserted ready s own =>
      have calls := moved .returned
      have more := count_insert (fresh_of_running kept here (by simp [ready])) s username
      rw [own] at more
      simp only [owes, ready, reduceCtorEq, decide_false, Bool.false_and,
        Bool.false_eq_true, if_false, decide_true, Bool.true_and, decide_eq_true_eq] at calls
      show d.count username + _ ≤
        (getUserSessions (Assoc.insert d.storage c.id s) username).length +
          (d.calls.set i _).countP _
      unfold Desk.count
      omega
  | @added begun s own space =>
      have calls := moved .returned
      have more := count_insert (fresh_of_running kept here (by simp [begun])) s username
      simp only [owes, begun, reduceCtorEq, decide_false, Bool.false_and, Bool.false_eq_true,
        if_false] at calls
      show d.count username + _ ≤
        (getUserSessions (Assoc.insert d.storage c.id s) username).length +
          (d.calls.set i _).countP _
      unfold Desk.count
      omega
  | @replaced begun s own q member theirs full =>
      have calls := moved .returned
      have fresh := fresh_of_running kept here (by simp [begun])
      have more := count_insert (fresh_of_erased fresh q.1) s username
      have less := count_erase kept.distinct member username
      rw [own] at more
      rw [theirs] at less
      simp only [owes, begun, reduceCtorEq, decide_false, Bool.false_and, Bool.false_eq_true,
        if_false] at calls
      show d.count username + _ ≤
        (getUserSessions (Assoc.insert (Assoc.erase d.storage q.1) c.id s) username).length +
          (d.calls.set i _).countP _
      unfold Desk.count
      omega

theorem kept_step {e : Event} (limit : d.config.maxSessionsPerUser = some m) (positive : 1 ≤ m)
    (kept : Kept d) (stepped : d.step e = some d') :
    Kept d' ∧ d'.config = d.config ∧ ∀ username, promised d username ≤ promised d' username := by
  cases e with
  | begin id origin ip agent =>
      simp only [Desk.step] at stepped
      split at stepped
      · rename_i new
        obtain rfl := Option.some.inj stepped
        refine ⟨kept_begin kept new.2 origin ip agent, rfl, fun username => ?_⟩
        unfold promised
        rw [List.countP_append]
        exact Nat.le_of_eq rfl
      · cases stepped
  | advance i instant listed =>
      obtain ⟨c, here, ran⟩ := section_of_advance limit positive stepped
      refine ⟨kept_section kept here ran, ?_, promised_section kept here ran⟩
      cases ran <;> rfl

theorem step_of_timely {e : Event} (limit : d.config.maxSessionsPerUser = some m)
    (positive : 1 ≤ m) (kept : Kept d) (bounded : d.Bounded m) (timely : d.Timely m e)
    (stepped : d.step e = some d') : d.Proper m e ∧ d'.Bounded m := by
  cases e with
  | begin id origin ip agent =>
      simp only [Desk.step] at stepped
      split at stepped
      · rename_i new
        obtain rfl := Option.some.inj stepped
        refine ⟨?_, bounded⟩
        intro d'' next p member gone
        simp only [Desk.step, if_pos new] at next
        obtain rfl := Option.some.inj next
        exact absurd (List.mem_map_of_mem member) gone
      · cases stepped
  | advance i instant listed =>
      obtain ⟨c, here, ran⟩ := section_of_advance limit positive stepped
      obtain ⟨evicting, inserting⟩ := timely c here
      refine ⟨?_, bounded_section kept here ran bounded inserting⟩
      intro d'' next p member gone
      obtain rfl := Option.some.inj (stepped.symm.trans next)
      exact proper_section kept here ran evicting member gone

/-- A proper step that is not timely inserts beyond the limit. -/
theorem timely_or_promised {e : Event} (limit : d.config.maxSessionsPerUser = some m)
    (positive : 1 ≤ m) (kept : Kept d) (proper : d.Proper m e) (stepped : d.step e = some d') :
    d.Timely m e ∨ ∃ username, m < promised d username := by
  cases e with
  | begin id origin ip agent => exact .inl trivial
  | advance i instant listed =>
      obtain ⟨c, here, ran⟩ := section_of_advance limit positive stepped
      by_cases late : c.phase = .ready ∧ m ≤ d.count c.username
      · refine .inr ⟨c.username, ?_⟩
        have owing : 0 < d.calls.countP (owes c.username) :=
          Tasks.countP_pos_of_here here (by simp [owes, late.1])
        unfold promised
        omega
      · refine .inl fun c' read => ?_
        obtain rfl := Option.some.inj (here.symm.trans read)
        refine ⟨?_, fun ready => ?_⟩
        · intro oldest chosen present
          obtain ⟨p, member, same⟩ := List.mem_map.mp present
          have gone : p.1 ∉ Assoc.keys d'.storage := by
            cases ran with
            | @evicted other picked =>
                obtain rfl := Phase.picked.inj (chosen.symm.trans picked)
                show p.1 ∉ Assoc.keys (Assoc.erase d.storage oldest)
                rw [← Assoc.get_eq_none_iff, Assoc.get_erase, if_pos same.symm]
            | inserted ready own =>
                rw [chosen] at ready
                cases ready
            | _ begun =>
                rw [chosen] at begun
                cases begun
          rw [← username_of_chosen kept here chosen member same]
          exact proper d' stepped p member gone
        · by_contra full
          exact late ⟨ready, not_lt.mp full⟩

theorem run_facts {events : List Event} (limit : d.config.maxSessionsPerUser = some m)
    (positive : 1 ≤ m) (kept : Kept d) (ran : Runs.run Desk.step d events = some d') :
    (d.Bounded m → Runs.Along Desk.step (Desk.Timely m) d events →
        Runs.Along Desk.step (Desk.Proper m) d events ∧ d'.Bounded m) ∧
      (∀ username, promised d username ≤ promised d' username) ∧
      (d'.AllReturned → Runs.Along Desk.step (Desk.Proper m) d events → d'.Bounded m →
        Runs.Along Desk.step (Desk.Timely m) d events) := by
  induction events generalizing d with
  | nil =>
      obtain rfl := Option.some.inj ran
      exact ⟨fun bounded _ => ⟨trivial, bounded⟩, fun _ => Nat.le_refl _, fun _ _ _ => trivial⟩
  | cons e events ih =>
      rw [Runs.run, List.foldlM_cons] at ran
      obtain ⟨next, stepped, ran⟩ := Option.bind_eq_some_iff.mp ran
      obtain ⟨kept_next, config, grown⟩ := kept_step limit positive kept stepped
      obtain ⟨forth, grown', back⟩ := ih (config ▸ limit) kept_next ran
      refine ⟨?_, fun username => Nat.le_trans (grown username) (grown' username), ?_⟩
      · rintro bounded ⟨now, along⟩
        obtain ⟨proper, bounded_next⟩ := step_of_timely limit positive kept bounded now stepped
        obtain ⟨rest, last⟩ := forth bounded_next (along next stepped)
        exact ⟨.cons proper stepped rest, last⟩
      · rintro returned ⟨now, along⟩ last
        refine .cons ?_ stepped (back returned (along next stepped) last)
        rcases timely_or_promised limit positive kept now stepped with timely | ⟨username, many⟩
        · exact timely
        · exfalso
          have none_owed : d'.calls.countP (owes username) = 0 := by
            rw [List.countP_eq_zero]
            intro c member
            simp [owes, returned c member]
          have kept_promise := Nat.le_trans (grown username) (grown' username)
          have few := last username
          unfold promised at many kept_promise
          omega

end

/-- With timely sections the limit holds in every state and no session is removed early; where all
calls have returned, both hold only then. -/
theorem limited_iff_timely (config : SessionConfig) (m : Nat)
    (limit : config.maxSessionsPerUser = some m) (positive : 1 ≤ m) (events : List Event) (d : Desk)
    (ran : Runs.run Desk.step (.opened config) events = some d) :
    (Runs.Along Desk.step (Desk.Timely m) (.opened config) events →
        Runs.Along Desk.step (Desk.Proper m) (.opened config) events ∧ d.Bounded m) ∧
      (d.AllReturned → Runs.Along Desk.step (Desk.Proper m) (.opened config) events →
        d.Bounded m → Runs.Along Desk.step (Desk.Timely m) (.opened config) events) := by
  obtain ⟨forth, -, back⟩ := run_facts limit positive (kept_opened config) ran
  exact ⟨forth fun username => Nat.zero_le m, back⟩

/-- One session for each user. -/
def oneSession : SessionConfig := ⟨10, some 1, false, false⟩

def create (id : SessionId) : Event := .begin id (.full (bytesOf "anton") none) none none

def twoSessions : SessionConfig := ⟨10, some 2, false, false⟩

def kept (id : SessionId) (username : Bytes) (instant : Nat) : SessionId × SessionData :=
  (id, SessionManager.newData twoSessions (.full username none) none none instant)

/-- Two calls for one user and one for another count before any inserts; a fourth then picks the
older session, and a fifth, for the other user, counts and inserts before it is evicted. -/
def crossed : List Event :=
  [create 1, create 2, .begin 3 (.full (bytesOf "boris") none) none none,
    .advance 0 0 [], .advance 1 0 [], .advance 2 0 [],
    .advance 1 1 [], .advance 2 2 [], .advance 0 3 [],
    create 4, .advance 3 4 [kept 1 (bytesOf "anton") 3, kept 2 (bytesOf "anton") 1],
    .begin 5 (.full (bytesOf "boris") none) none none, .advance 4 5 [kept 3 (bytesOf "boris") 2],
    .advance 4 6 [], .advance 3 7 [], .advance 3 8 []]

instance (m : Nat) (d : Desk) (c : Creation) : Decidable (∀ oldest, c.phase = .picked oldest →
    oldest ∈ Assoc.keys d.storage → m ≤ d.count c.username) :=
  match c.phase with
  | .picked o => decidable_of_iff (o ∈ Assoc.keys d.storage → m ≤ d.count c.username)
      ⟨fun early _ same => Phase.picked.inj same ▸ early, fun early => early o rfl⟩
  | .begun => isTrue nofun
  | .ready => isTrue nofun
  | .returned => isTrue nofun

instance (m : Nat) (d : Desk) : (e : Event) → Decidable (d.Timely m e)
  | .begin _ _ _ _ => isTrue trivial
  | .advance i _ _ => inferInstanceAs (Decidable (∀ c ∈ d.calls[i]?,
      (∀ oldest, c.phase = .picked oldest → oldest ∈ Assoc.keys d.storage →
        m ≤ d.count c.username) ∧
      (c.phase = .ready → d.count c.username < m)))

theorem crossed_limited :
    ∃ d, Runs.run Desk.step (.opened twoSessions) crossed = some d ∧
      (d.AllReturned ∧ Assoc.keys d.storage = [3, 1, 5, 4]) ∧
      Runs.Along Desk.step (Desk.Proper 2) (.opened twoSessions) crossed ∧ d.Bounded 2 := by
  obtain ⟨d, ran⟩ : ∃ d, Runs.run Desk.step (.opened twoSessions) crossed = some d :=
    Option.isSome_iff_exists.mp (by decide +kernel)
  have returned : ∀ d' ∈ Runs.run Desk.step (.opened twoSessions) crossed,
      d'.AllReturned ∧ Assoc.keys d'.storage = [3, 1, 5, 4] := by
    decide +kernel
  have timely : Runs.Along Desk.step (Desk.Timely 2) (.opened twoSessions) crossed := by
    decide +kernel
  exact ⟨d, ran, returned d ran,
    (limited_iff_timely twoSessions 2 rfl (by decide) crossed d ran).1 timely⟩

/-- Two calls count before either inserts. -/
def together : List Event :=
  [create 1, create 2, .advance 0 0 [], .advance 1 0 [], .advance 0 0 [], .advance 1 0 []]

theorem together_unlimited :
    ¬ ∀ (config : SessionConfig) (m : Nat), config.maxSessionsPerUser = some m → 1 ≤ m →
      ∀ (events : List Event) (d : Desk),
        Runs.run Desk.step (.opened config) events = some d →
          Runs.Along Desk.step (Desk.Proper m) (.opened config) events ∧
            (d.AllReturned → d.Bounded m) := by
  intro always
  obtain ⟨-, bounded⟩ := always oneSession 1 rfl (Nat.le_refl 1) together _ rfl
  have few := bounded (by decide +kernel) (bytesOf "anton")
  exact absurd few (by decide +kernel)

end Zumic.Auth.SessionLimit
