/- Waiting for a message that meets a condition (`subscriber.rs`): the loop of `recv_with_condition`
reads from the buffer that it writes to. -/

import Zumic.Pubsub.Conservation

namespace Zumic.Pubsub

open Lib.Broadcast Lib.Utf8

variable {Json : Type}

namespace Subscriber

/-- A message that was not waited for goes to the end of the local buffer, while there is room. -/
def keepBack (s : Subscriber Json) (m : Message Json) : Subscriber Json :=
  match s.messageBuffer with
  | some buffer =>
      if buffer.length < s.options.messageBufferSize then
        { s with messageBuffer := some (buffer ++ [m]) }
      else s
  | none => s

section

variable (serde : SerdeJson Json) (gzip : Gzip) (condition : Message Json → Bool)

/-- The loop of `recv_with_condition`, given up after so many turns. -/
def recvWithCondition : Nat → Subscriber Json → Option (Outcome (Message Json) × Subscriber Json)
  | 0, _ => none
  | turns + 1, s =>
      match s.recv serde gzip with
      | (.returned (.ok m), s) =>
          if condition m then some (.returned (.ok m), s)
          else recvWithCondition turns (s.keepBack m)
      | (.returned (.error e), s) => some (.returned (.error e), s)
      | (.waiting, s) => some (.waiting, s)
      | (.panicked, s) => some (.panicked, s)

/-- What a report comes to; nothing for a message that is filtered out, and for what is passed
over. -/
def gives (s : Subscriber Json) : Report (Message Json) → Option (Except RecvError (Message Json))
  | .message m =>
      if s.shouldProcessMessage serde m then
        some ((s.processMessage serde gzip m).mapError TryRecvError.toRecvError)
      else none
  | .lagged count => if s.options.lagHandling = .error then some (.error (.lagged count)) else none
  | .closed => some (.error .closed)
  | .empty elapsed =>
      if elapsed && s.options.recvTimeout.isSome then some (.error .timeout) else none

/-- What the receiver gives, message or error, one call after another. -/
def coming (s : Subscriber Json) : List (Except RecvError (Message Json)) :=
  s.receiver.coming.filterMap (s.gives serde gzip)

/-- The local buffer is enabled, and holds these messages. -/
structure Buffers (s : Subscriber Json) (buffer : List (Message Json)) : Prop where
  enabled : s.messageBuffer = some buffer
  room : buffer.length ≤ s.options.messageBufferSize

/-- What is queued, in the buffer and then in the receiver. -/
def queued (s : Subscriber Json) (buffer : List (Message Json)) :
    List (Except RecvError (Message Json)) :=
  buffer.map .ok ++ s.coming serde gzip

/-- The first message that meets the condition is returned after some number of turns, and as many
of the messages before it as the buffer takes are in the buffer in their order. -/
def Progresses (s : Subscriber Json) (buffer : List (Message Json)) : Prop :=
  ∀ before m after, s.queued serde gzip buffer = before ++ .ok m :: after →
    condition m = true → (∀ m', .ok m' ∈ before → condition m' = false) →
    ∃ turns s' buffer', recvWithCondition serde gzip condition turns s =
        some (.returned (.ok m), s') ∧ s'.messageBuffer = some buffer' ∧
      ((before.filterMap Except.toOption).take s.options.messageBufferSize).Sublist buffer'

/-- The first message that meets the condition is in the buffer, or the buffer is empty and nothing
comes before the message; behind a buffer without room there may be other messages before it, but
no error. -/
def Prompt (s : Subscriber Json) (buffer : List (Message Json)) : Prop :=
  ∀ before m after, s.queued serde gzip buffer = before ++ .ok m :: after →
    condition m = true → (∀ m', .ok m' ∈ before → condition m' = false) →
    before.length < buffer.length ∨
      buffer = [] ∧ (before = [] ∨ s.options.messageBufferSize = 0 ∧ ∀ r ∈ before, r.isOk = true)

/-- The options and the filters, which no call changes. -/
structure SameSettings (s s' : Subscriber Json) : Prop where
  options : s'.options = s.options
  filters : s'.filters = s.filters

end

section

variable {serde : SerdeJson Json} {gzip : Gzip} {condition : Message Json → Bool}

theorem gives_same {s s' : Subscriber Json} (same : SameSettings s s') :
    s'.gives serde gzip = s.gives serde gzip := by
  funext report
  cases report <;>
    simp only [gives, shouldProcessMessage, processMessage, same.options, same.filters]

variable (serde gzip) in
theorem recvInternal_cons (s : Subscriber Json) (report : Report (Message Json))
    (rest : List (Report (Message Json))) :
    ∃ s', SameSettings s s' ∧ s'.messageBuffer = s.messageBuffer ∧ s'.receiver.coming = rest ∧
      (∀ r, s.gives serde gzip report = some r →
        recvInternal serde gzip s (report :: rest) = (.returned r, s')) ∧
      (s.gives serde gzip report = none →
        recvInternal serde gzip s (report :: rest) = recvInternal serde gzip s' rest) := by
  cases report with
  | message m =>
      have wants : (s.took m rest).shouldProcessMessage serde m = s.shouldProcessMessage serde m :=
        rfl
      have result : (s.took m rest).processMessage serde gzip m = s.processMessage serde gzip m :=
        rfl
      simp only [gives, recvInternal, accept, wants, result]
      cases s.shouldProcessMessage serde m with
      | false => exact ⟨(s.took m rest).countFiltered, ⟨rfl, rfl⟩, rfl, rfl, by simp, by simp⟩
      | true =>
          cases s.processMessage serde gzip m with
          | ok p =>
              refine ⟨(s.took m rest).updateStats serde p, ⟨rfl, rfl⟩, rfl, rfl, ?_, by simp⟩
              rintro r given
              obtain rfl := Option.some.inj given
              rfl
          | error e =>
              refine ⟨s.took m rest, ⟨rfl, rfl⟩, rfl, rfl, ?_, by simp⟩
              rintro r given
              obtain rfl := Option.some.inj given
              rfl
  | lagged count =>
      have lag : (s.passed rest).handleLagging count =
          (if s.options.lagHandling = .error then .error (.lagged count) else .ok (),
            ((s.passed rest).handleLagging count).2) := rfl
      refine ⟨((s.passed rest).handleLagging count).2, ⟨rfl, rfl⟩, rfl, rfl, ?_⟩
      rw [recvInternal, lag]
      by_cases strict : s.options.lagHandling = .error
      · simp [gives, strict, TryRecvError.toRecvError]
      · simp [gives, strict]
  | closed =>
      refine ⟨s.passed rest, ⟨rfl, rfl⟩, rfl, rfl, ?_, by simp [gives]⟩
      rintro r given
      obtain rfl := Option.some.inj given
      rfl
  | empty elapsed =>
      simp only [gives, recvInternal]
      refine ⟨s.passed rest, ⟨rfl, rfl⟩, rfl, rfl, ?_, ?_⟩
      · rintro r given
        split at given
        · obtain rfl := Option.some.inj given
          simp_all
        · cases given
      · intro silent
        split at silent
        · cases silent
        · simp_all

theorem recvInternal_gives (s : Subscriber Json) (reports : List (Report (Message Json)))
    {r : Except RecvError (Message Json)} {rest : List (Except RecvError (Message Json))}
    (first : reports.filterMap (s.gives serde gzip) = r :: rest) :
    ∃ s', recvInternal serde gzip s reports = (.returned r, s') ∧ SameSettings s s' ∧
      s'.messageBuffer = s.messageBuffer ∧ s'.coming serde gzip = rest := by
  induction reports generalizing s with
  | nil => cases first
  | cons report reports ih =>
      obtain ⟨s', same, buffer, left, returns, passes⟩ := recvInternal_cons serde gzip s report reports
      rw [List.filterMap_cons] at first
      cases given : s.gives serde gzip report with
      | some r' =>
          rw [given] at first
          obtain ⟨rfl, later⟩ := List.cons.inj first
          refine ⟨s', returns r' given, same, buffer, ?_⟩
          rw [coming, left, gives_same same]
          exact later
      | none =>
          rw [given] at first
          rw [← gives_same same] at first
          obtain ⟨s'', done, same', buffer', later⟩ := ih s' first
          refine ⟨s'', (passes given).trans done, ?_, buffer'.trans buffer, later⟩
          exact ⟨same'.options.trans same.options, same'.filters.trans same.filters⟩

variable (serde gzip) in
theorem recv_buffer {s : Subscriber Json} {m : Message Json} {buffer : List (Message Json)}
    (front : s.messageBuffer = some (m :: buffer)) :
    ∃ s', s.recv serde gzip = (.returned (.ok m), s') ∧ SameSettings s s' ∧
      s'.messageBuffer = some buffer ∧ s'.coming serde gzip = s.coming serde gzip := by
  have same : SameSettings s (({ s with messageBuffer := some buffer }).updateStats serde m) :=
    ⟨rfl, rfl⟩
  refine ⟨_, ?_, same, rfl, ?_⟩
  · simp only [recv, popBuffer, front]
  · rw [coming, gives_same same]
    rfl

theorem recv_coming {s : Subscriber Json} (empty : s.messageBuffer = some [])
    {r : Except RecvError (Message Json)} {rest : List (Except RecvError (Message Json))}
    (first : s.coming serde gzip = r :: rest) :
    ∃ s', s.recv serde gzip = (.returned r, s') ∧ SameSettings s s' ∧
      s'.messageBuffer = some [] ∧ s'.coming serde gzip = rest := by
  obtain ⟨s', done, same, buffer, later⟩ := recvInternal_gives s s.receiver.coming first
  refine ⟨s', ?_, same, buffer.trans empty, later⟩
  simp only [recv, popBuffer, empty]
  exact done

theorem keepBack_room {s : Subscriber Json} {buffer : List (Message Json)}
    (enabled : s.messageBuffer = some buffer) (room : buffer.length < s.options.messageBufferSize)
    (m : Message Json) :
    (s.keepBack m).messageBuffer = some (buffer ++ [m]) ∧ SameSettings s (s.keepBack m) := by
  have shape : s.keepBack m = { s with messageBuffer := some (buffer ++ [m]) } := by
    simp only [keepBack, enabled, if_pos room]
  rw [shape]
  exact ⟨rfl, rfl, rfl⟩

/-- A buffer without a message to return is read and written in a circle. -/
theorem recvWithCondition_circles {s : Subscriber Json} {buffer : List (Message Json)}
    (buffers : s.Buffers buffer) (some' : buffer ≠ [])
    (unmet : ∀ m ∈ buffer, condition m = false) (turns : Nat) :
    recvWithCondition serde gzip condition turns s = none := by
  induction turns generalizing s buffer with
  | zero => rfl
  | succ turns ih =>
      obtain ⟨m, rest, rfl⟩ := List.exists_cons_of_ne_nil some'
      obtain ⟨s', read, same, left, -⟩ := recv_buffer serde gzip
        buffers.enabled
      have room := buffers.room
      rw [List.length_cons, ← same.options] at room
      obtain ⟨kept, same'⟩ := keepBack_room left (by omega) m
      have turned : (s'.keepBack m).Buffers (rest ++ [m]) := by
        refine ⟨kept, ?_⟩
        rw [same'.options, List.length_append]
        exact room
      rw [recvWithCondition, read]
      simp only [unmet m (by simp), Bool.false_eq_true, if_false]
      refine ih turned (by simp) fun m' member => unmet m' ?_
      simpa [or_comm] using member

theorem recvWithCondition_finds {s : Subscriber Json} {before after : List (Message Json)}
    {m : Message Json} (buffers : s.Buffers (before ++ m :: after)) (met : condition m = true)
    (unmet : ∀ m' ∈ before, condition m' = false) :
    ∃ s', recvWithCondition serde gzip condition (before.length + 1) s =
        some (.returned (.ok m), s') ∧ s'.messageBuffer = some (after ++ before) := by
  induction before generalizing s after with
  | nil =>
      obtain ⟨s', read, -, left, -⟩ := recv_buffer serde gzip buffers.enabled
      refine ⟨s', ?_, ?_⟩
      · rw [List.length_nil, recvWithCondition, read]
        simp only [met, if_true]
      · simpa using left
  | cons m' before ih =>
      obtain ⟨s', read, same, left, -⟩ := recv_buffer serde gzip
        buffers.enabled
      have left : s'.messageBuffer = some (before ++ m :: after) := left
      have room := buffers.room
      rw [List.cons_append, List.length_cons, ← same.options] at room
      obtain ⟨kept, same'⟩ := keepBack_room left (by omega) m'
      have turned : (s'.keepBack m').Buffers (before ++ m :: (after ++ [m'])) := by
        refine ⟨by simpa using kept, ?_⟩
        rw [same'.options]
        simp only [List.length_append, List.length_cons, List.length_nil] at room ⊢
        omega
      obtain ⟨s'', found, behind⟩ := ih turned fun m'' member => unmet m'' (by simp [member])
      refine ⟨s'', ?_, ?_⟩
      · rw [List.length_cons, recvWithCondition, read]
        simp only [unmet m' (by simp), Bool.false_eq_true, if_false]
        exact found
      · rw [behind, List.append_assoc]
        rfl

theorem recvWithCondition_fails {s : Subscriber Json} (empty : s.messageBuffer = some [])
    {e : RecvError} {rest : List (Except RecvError (Message Json))}
    (first : s.coming serde gzip = .error e :: rest) (turns : Nat) :
    ∀ s' m, recvWithCondition serde gzip condition turns s ≠ some (.returned (.ok m), s') := by
  intro s' m
  cases turns with
  | zero => simp [recvWithCondition]
  | succ turns =>
      obtain ⟨s'', read, -⟩ := recv_coming empty first
      rw [recvWithCondition, read]
      simp

/-- Without room the messages before are dropped, one in each turn; an error among them is
returned. -/
theorem recvWithCondition_drops {s : Subscriber Json} (empty : s.messageBuffer = some [])
    (full : s.options.messageBufferSize = 0) {before after : List (Except RecvError (Message Json))}
    {m : Message Json} (listed : s.coming serde gzip = before ++ .ok m :: after)
    (met : condition m = true) (unmet : ∀ m', .ok m' ∈ before → condition m' = false) :
    (∃ turns s' buffer', recvWithCondition serde gzip condition turns s =
        some (.returned (.ok m), s') ∧ s'.messageBuffer = some buffer') ↔
      ∀ r ∈ before, r.isOk = true := by
  induction before generalizing s with
  | nil =>
      obtain ⟨s', read, -, left, -⟩ := recv_coming empty listed
      refine iff_of_true ⟨1, s', [], ?_, left⟩ (by simp)
      rw [recvWithCondition, read]
      simp only [met, if_true]
  | cons r before ih =>
      cases r with
      | error e =>
          refine iff_of_false ?_ fun all => ?_
          · rintro ⟨turns, s', buffer', found, -⟩
            exact recvWithCondition_fails empty listed turns s' m found
          · exact absurd (all (.error e) (by simp)) (by simp [Except.isOk, Except.toBool])
      | ok m' =>
          obtain ⟨s', read, same, left, later⟩ := recv_coming empty listed
          have dropped : s'.keepBack m' = s' := by
            simp [keepBack, left, same.options, full]
          have rest := ih left (by rw [same.options, full]) later fun m'' member =>
            unmet m'' (by simp [member])
          have skip (turns : Nat) : recvWithCondition serde gzip condition (turns + 1) s =
              recvWithCondition serde gzip condition turns s' := by
            rw [recvWithCondition, read]
            simp only [unmet m' (by simp), Bool.false_eq_true, if_false, dropped]
          have first : (Except.ok m' : Except RecvError (Message Json)).isOk = true := rfl
          simp only [List.forall_mem_cons, first, true_and]
          rw [← rest]
          constructor
          · rintro ⟨turns, s'', buffer', found, left'⟩
            cases turns with
            | zero => cases found
            | succ turns => exact ⟨turns, s'', buffer', (skip turns).symm.trans found, left'⟩
          · rintro ⟨turns, s'', buffer', found, left'⟩
            exact ⟨turns + 1, s'', buffer', (skip turns).trans found, left'⟩

/-- With room in an empty buffer, a message that comes first and does not meet the condition is put
into the buffer, and nothing behind it is read. -/
theorem recvWithCondition_blocks {s : Subscriber Json} (empty : s.messageBuffer = some [])
    (room : s.options.messageBufferSize ≠ 0) {m : Message Json}
    {rest : List (Except RecvError (Message Json))} (first : s.coming serde gzip = .ok m :: rest)
    (unmet : condition m = false) (turns : Nat) :
    recvWithCondition serde gzip condition turns s = none := by
  cases turns with
  | zero => rfl
  | succ turns =>
      obtain ⟨s', read, same, left, -⟩ := recv_coming empty first
      rw [← same.options] at room
      have fits : ([] : List (Message Json)).length < s'.options.messageBufferSize :=
        Nat.pos_of_ne_zero room
      obtain ⟨kept, same'⟩ := keepBack_room left fits m
      have turned : (s'.keepBack m).Buffers [m] := by
        refine ⟨kept, ?_⟩
        rw [same'.options]
        exact fits
      rw [recvWithCondition, read]
      simp only [unmet, Bool.false_eq_true, if_false]
      exact recvWithCondition_circles turned (by simp) (by simpa using unmet) turns

theorem found_coming_iff {s : Subscriber Json} (empty : s.messageBuffer = some [])
    {before after : List (Except RecvError (Message Json))} {m : Message Json}
    (listed : s.coming serde gzip = before ++ .ok m :: after) (met : condition m = true)
    (unmet : ∀ m', .ok m' ∈ before → condition m' = false) :
    (∃ turns s' buffer', recvWithCondition serde gzip condition turns s =
        some (.returned (.ok m), s') ∧ s'.messageBuffer = some buffer' ∧
      ((before.filterMap Except.toOption).take s.options.messageBufferSize).Sublist buffer') ↔
      before = [] ∨ s.options.messageBufferSize = 0 ∧ ∀ r ∈ before, r.isOk = true := by
  cases before with
  | nil =>
      obtain ⟨s', read, -, left, -⟩ := recv_coming empty listed
      refine iff_of_true ⟨1, s', [], ?_, left, by simp⟩ (.inl rfl)
      rw [recvWithCondition, read]
      simp only [met, if_true]
  | cons r before =>
      simp only [reduceCtorEq, false_or]
      by_cases full : s.options.messageBufferSize = 0
      · rw [← recvWithCondition_drops empty full listed met unmet]
        simp only [full, List.take_zero, List.nil_sublist, and_true, true_and]
      · refine iff_of_false ?_ fun prompt => full prompt.1
        rintro ⟨turns, s', buffer', found, -⟩
        cases r with
        | error e => exact recvWithCondition_fails empty listed turns s' m found
        | ok m' =>
            rw [recvWithCondition_blocks empty full listed (unmet m' (by simp)) turns] at found
            cases found

theorem found_behind_iff {s : Subscriber Json} {buffer : List (Message Json)}
    (buffers : s.Buffers buffer) {more after : List (Except RecvError (Message Json))}
    {m : Message Json} (listed : s.coming serde gzip = more ++ .ok m :: after)
    (met : condition m = true)
    (unmet : ∀ m', .ok m' ∈ buffer.map .ok ++ more → condition m' = false) :
    (∃ turns s' buffer', recvWithCondition serde gzip condition turns s =
        some (.returned (.ok m), s') ∧ s'.messageBuffer = some buffer' ∧
      (((buffer.map Except.ok ++ more).filterMap Except.toOption).take
        s.options.messageBufferSize).Sublist buffer') ↔
      (buffer.map Except.ok ++ more).length < buffer.length ∨
        buffer = [] ∧ (buffer.map Except.ok ++ more = [] ∨ s.options.messageBufferSize = 0 ∧
          ∀ r ∈ buffer.map Except.ok ++ more, r.isOk = true) := by
  have long : ¬ (buffer.map Except.ok ++ more).length < buffer.length := by
    simp only [List.length_append, List.length_map]
    omega
  by_cases empty : buffer = []
  · subst empty
    simp only [List.map_nil, List.nil_append, List.length_nil, Nat.not_lt_zero, true_and, false_or]
      at unmet ⊢
    exact found_coming_iff buffers.enabled listed met unmet
  · refine iff_of_false ?_ ?_
    · rintro ⟨turns, s', buffer', found, -⟩
      rw [recvWithCondition_circles buffers empty
        (fun m' member => unmet m' (by simp [member])) turns] at found
      cases found
    · rintro (short | ⟨none, -⟩)
      · exact long short
      · exact empty none

theorem found_in_buffer {s : Subscriber Json} {b a : List (Message Json)} {m : Message Json}
    (buffers : s.Buffers (b ++ m :: a)) (met : condition m = true)
    (unmet : ∀ m' ∈ b, condition m' = false) :
    ∃ turns s' buffer', recvWithCondition serde gzip condition turns s =
        some (.returned (.ok m), s') ∧ s'.messageBuffer = some buffer' ∧
      (((b.map (Except.ok (ε := RecvError))).filterMap Except.toOption).take
        s.options.messageBufferSize).Sublist buffer' := by
  obtain ⟨s', found, left⟩ := recvWithCondition_finds buffers met
    unmet
  refine ⟨_, s', _, found, left, (List.take_sublist _ _).trans ?_⟩
  have same : (b.map (Except.ok (ε := RecvError))).filterMap Except.toOption = b := by
    rw [List.filterMap_map]
    exact List.filterMap_some
  rw [same]
  exact List.sublist_append_right a b

/-- Waiting for a condition makes progress just when it is prompt. -/
theorem progresses_iff (serde : SerdeJson Json) (gzip : Gzip) (condition : Message Json → Bool)
    (s : Subscriber Json) (buffer : List (Message Json)) (buffers : s.Buffers buffer) :
    s.Progresses serde gzip condition buffer ↔ s.Prompt serde gzip condition buffer := by
  refine forall_congr' fun before => forall_congr' fun m => forall_congr' fun after =>
    forall_congr' fun listed => forall_congr' fun met => forall_congr' fun unmet => ?_
  rcases List.append_eq_append_iff.mp listed with ⟨more, rfl, rest⟩ | ⟨more, split, rest⟩
  · exact found_behind_iff buffers rest met unmet
  · cases more with
    | nil =>
        obtain rfl : before = buffer.map .ok := by simpa using split.symm
        have unmet' : ∀ m', .ok m' ∈ buffer.map Except.ok ++
            ([] : List (Except RecvError (Message Json))) → condition m' = false := by
          simpa using unmet
        have first : s.coming serde gzip = [] ++ .ok m :: after := rest.symm
        simpa using found_behind_iff buffers first met unmet'
    | cons r more =>
        obtain ⟨rfl, -⟩ := List.cons.inj rest
        obtain ⟨b, tail, rfl, rfl, tail_eq⟩ := List.map_eq_append_iff.mp split
        obtain ⟨m', a, rfl, first, -⟩ := List.map_eq_cons_iff.mp tail_eq
        obtain rfl := Except.ok.inj first
        refine iff_of_true ?_ (.inl (by simp))
        exact found_in_buffer buffers met fun m'' member => unmet m'' (by simpa using member)

end

section

variable {serde : SerdeJson Json} {gzip : Gzip} {condition : Message Json → Bool}

theorem buffers_new (receiver : Receiver (Message Json)) (channel : Str)
    {options : SubscriptionOptions} (enabled : options.enableMessageBuffer = true) :
    (Subscriber.new receiver channel options).Buffers [] :=
  ⟨by simp [Subscriber.new, enabled], Nat.zero_le _⟩

variable (serde gzip) in
theorem settings_recvInternal (s : Subscriber Json) (reports : List (Report (Message Json))) :
    SameSettings s (recvInternal serde gzip s reports).2 ∧
      (recvInternal serde gzip s reports).2.messageBuffer = s.messageBuffer := by
  induction reports generalizing s with
  | nil => exact ⟨⟨rfl, rfl⟩, rfl⟩
  | cons report reports ih =>
      obtain ⟨s', same, buffer, -, returns, passes⟩ := recvInternal_cons serde gzip s report reports
      cases given : s.gives serde gzip report with
      | some r =>
          rw [returns r given]
          exact ⟨same, buffer⟩
      | none =>
          rw [passes given]
          obtain ⟨same', buffer'⟩ := ih s'
          exact ⟨⟨same'.options.trans same.options, same'.filters.trans same.filters⟩,
            buffer'.trans buffer⟩

variable (serde gzip) in
theorem buffers_recv {s : Subscriber Json} {buffer : List (Message Json)}
    (buffers : s.Buffers buffer) : (s.recv serde gzip).2.Buffers buffer.tail := by
  cases buffer with
  | nil =>
      obtain ⟨same, kept⟩ := settings_recvInternal serde gzip s
        s.receiver.coming
      have read : s.recv serde gzip = recvInternal serde gzip s s.receiver.coming := by
        simp only [recv, popBuffer, buffers.enabled]
      rw [read]
      exact ⟨kept.trans buffers.enabled, Nat.zero_le _⟩
  | cons m buffer =>
      obtain ⟨s', read, same, left, -⟩ := recv_buffer serde gzip
        buffers.enabled
      have room := buffers.room
      rw [List.length_cons] at room
      rw [read]
      refine ⟨left, ?_⟩
      rw [same.options, List.tail_cons]
      omega

theorem buffers_keepBack {s : Subscriber Json} {buffer : List (Message Json)}
    (buffers : s.Buffers buffer) (m : Message Json) :
    ∃ buffer', (s.keepBack m).Buffers buffer' := by
  by_cases room : buffer.length < s.options.messageBufferSize
  · obtain ⟨kept, same⟩ := keepBack_room buffers.enabled room m
    refine ⟨_, kept, ?_⟩
    rw [same.options, List.length_append]
    exact room
  · have full : s.keepBack m = s := by
      simp only [keepBack, buffers.enabled, if_neg room]
    refine ⟨buffer, ?_⟩
    rw [full]
    exact buffers

theorem buffers_recvWithCondition {s s' : Subscriber Json} {buffer : List (Message Json)}
    (buffers : s.Buffers buffer) {turns : Nat} {outcome : Outcome (Message Json)}
    (done : recvWithCondition serde gzip condition turns s = some (outcome, s')) :
    ∃ buffer', s'.Buffers buffer' := by
  induction turns generalizing s buffer with
  | zero => cases done
  | succ turns ih =>
      have next := buffers_recv serde gzip buffers
      rw [recvWithCondition] at done
      split at done
      · rename_i m s'' read
        rw [read] at next
        split at done
        · obtain ⟨-, rfl⟩ := Prod.mk.inj (Option.some.inj done)
          exact ⟨_, next⟩
        · obtain ⟨buffer', kept⟩ := buffers_keepBack next m
          exact ih kept done
      all_goals
        rename_i read
        rw [read] at next
        obtain ⟨-, rfl⟩ := Prod.mk.inj (Option.some.inj done)
        exact ⟨_, next⟩

end

/-- A text on the channel `c`. -/
def text (content : String) : Message Unit := ⟨Str.lit "c", .string (Str.lit content), none⟩

/-- A subscriber with a local buffer, in which some texts wait, and behind which others do. -/
def waitingFor (buffer reports : List String) : Subscriber Unit where
  receiver := ⟨reports.map fun content => .message (text content), false, []⟩
  channel := Str.lit "c"
  options := { SubscriptionOptions.default with enableMessageBuffer := true }
  messageBuffer := some (buffer.map text)
  stats := ⟨0, 0, 0, 0⟩
  filters := .default

def isText (content : String) (m : Message Unit) : Bool := m = text content

theorem progresses_buffered :
    (waitingFor ["a", "b"] []).Progresses nullSerde noGzip (isText "b") [text "a", text "b"] := by
  have buffers : (waitingFor ["a", "b"] []).Buffers [text "a", text "b"] :=
    ⟨rfl, by decide⟩
  refine (progresses_iff nullSerde noGzip (isText "b") _ _ buffers).mpr ?_
  intro before m after listed met unmet
  have length := congrArg List.length listed
  have total : ((waitingFor ["a", "b"] []).queued nullSerde noGzip [text "a", text "b"]).length =
      2 := by decide
  rw [total, List.length_append, List.length_cons] at length
  exact .inl (by simp only [List.length_cons, List.length_nil]; omega)

/-- The text in front goes into the buffer, is read from it and goes back. -/
theorem not_progresses_behind :
    (waitingFor [] ["a", "b"]).Buffers [] ∧
      ¬ (waitingFor [] ["a", "b"]).Progresses nullSerde noGzip (isText "b") [] := by
  refine ⟨⟨rfl, by decide⟩, fun progresses => ?_⟩
  have coming : (waitingFor [] ["a", "b"]).coming nullSerde noGzip =
      [.ok (text "a"), .ok (text "b")] := by rfl
  have unmet (m' : Message Unit)
      (member : Except.ok m' ∈ [(.ok (text "a") : Except RecvError (Message Unit))]) :
      isText "b" m' = false := by
    obtain rfl : m' = text "a" := by simpa using member
    decide
  obtain ⟨turns, s', buffer', found, -⟩ := progresses [.ok (text "a")] (text "b") [] coming
    (by decide) unmet
  have other : isText "b" (text "a") = false := by decide
  have blocked := recvWithCondition_blocks rfl (by decide) coming other turns
  rw [blocked] at found
  cases found

end Subscriber

end Zumic.Pubsub
