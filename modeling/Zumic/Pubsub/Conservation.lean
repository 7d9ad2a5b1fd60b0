/- Whether every message that was taken out of a receiver and passes the filters is returned. A call
that collects several messages loses them when it ends in an error. -/

import Zumic.Lib.Runs
import Zumic.Pubsub.Subscriber

namespace Zumic.Pubsub

open Lib Lib.Broadcast Lib.Utf8

variable {Json : Type} (serde : SerdeJson Json) (gzip : Gzip)

namespace Subscriber

/-- A message as it is returned. -/
def processed (s : Subscriber Json) (m : Message Json) : Message Json :=
  ((s.processMessage serde gzip m).toOption).getD m

/-- The messages taken out of the receiver that pass the filters, as they are returned. -/
def owed (s : Subscriber Json) : List (Message Json) :=
  (s.receiver.taken.filter (s.shouldProcessMessage serde)).map (s.processed serde gzip)

def strict (s : Subscriber Json) : Bool := decide (s.options.lagHandling = .error)

/-- Whether reading without waiting meets an error before the given number of messages. -/
def failsWithin (s : Subscriber Json) (room : Nat) (coming : List (Report (Message Json))) : Bool :=
  fails (s.shouldProcessMessage serde) s.strict s.receiver.closed room coming

def findsIn (s : Subscriber Json) (coming : List (Report (Message Json))) : Bool :=
  finds (s.shouldProcessMessage serde) s.strict coming

def afterFirst (s : Subscriber Json) (coming : List (Report (Message Json))) :
    Option (List (Report (Message Json))) :=
  awaited (s.shouldProcessMessage serde) s.strict s.options.recvTimeout.isSome coming

/-- A subscriber without decompression and with nothing in its local buffer. -/
structure Plain (s : Subscriber Json) : Prop where
  compression : s.options.enableCompression = false
  buffer : s.messageBuffer.getD [] = []

/-- A later state of a subscriber that owes the given messages more. -/
structure Gains (s s' : Subscriber Json) (more : List (Message Json)) : Prop where
  options : s'.options = s.options
  filters : s'.filters = s.filters
  buffer : s'.messageBuffer = s.messageBuffer
  closed : s'.receiver.closed = s.receiver.closed
  owed : s'.owed serde gzip = s.owed serde gzip ++ more

variable {serde gzip} {s s' s'' : Subscriber Json} {more others : List (Message Json)}

theorem Gains.refl (s : Subscriber Json) : Gains serde gzip s s [] :=
  ⟨rfl, rfl, rfl, rfl, (List.append_nil _).symm⟩

theorem Gains.trans (first : Gains serde gzip s s' more) (second : Gains serde gzip s' s'' others) :
    Gains serde gzip s s'' (more ++ others) where
  options := second.options.trans first.options
  filters := second.filters.trans first.filters
  buffer := second.buffer.trans first.buffer
  closed := second.closed.trans first.closed
  owed := by rw [second.owed, first.owed, List.append_assoc]

theorem Gains.plain (gains : Gains serde gzip s s' more) (plain : s.Plain) : s'.Plain where
  compression := by rw [gains.options, plain.compression]
  buffer := by rw [gains.buffer, plain.buffer]

theorem Gains.wants (gains : Gains serde gzip s s' more) :
    s'.shouldProcessMessage serde = s.shouldProcessMessage serde := by
  funext m
  simp only [shouldProcessMessage, gains.options, gains.filters]

theorem Gains.failsWithin (gains : Gains serde gzip s s' more) :
    s'.failsWithin serde = s.failsWithin serde := by
  funext room coming
  simp only [Subscriber.failsWithin, strict, gains.wants, gains.options, gains.closed]

theorem Gains.findsIn (gains : Gains serde gzip s s' more) : s'.findsIn serde = s.findsIn serde := by
  funext coming
  simp only [Subscriber.findsIn, strict, gains.wants, gains.options]

theorem Gains.afterFirst (gains : Gains serde gzip s s' more) :
    s'.afterFirst serde = s.afterFirst serde := by
  funext coming
  simp only [Subscriber.afterFirst, strict, gains.wants, gains.options]

theorem Plain.popBuffer (plain : s.Plain) : s.popBuffer = none := by
  have empty := plain.buffer
  unfold Subscriber.popBuffer
  split
  · rename_i m buffer held
    rw [held] at empty
    cases empty
  · rfl

theorem gains_passed (s : Subscriber Json) (rest : List (Report (Message Json))) :
    Gains serde gzip s (s.passed rest) [] :=
  ⟨rfl, rfl, rfl, rfl, (List.append_nil _).symm⟩

theorem gains_handleLagging (s : Subscriber Json) (count : UInt64) :
    Gains serde gzip s (s.handleLagging count).2 [] :=
  ⟨rfl, rfl, rfl, rfl, (List.append_nil _).symm⟩

theorem processMessage_of_plain (plain : s.Plain) (m : Message Json) :
    s.processMessage serde gzip m = .ok (s.processed serde gzip m) := by
  unfold processed processMessage
  rw [plain.compression]
  rfl

theorem accept_wanted (plain : s.Plain) {m : Message Json}
    (wanted : s.shouldProcessMessage serde m = true) (rest : List (Report (Message Json))) :
    ∃ s', (s.took m rest).accept serde gzip m = (some (.ok (s.processed serde gzip m)), s') ∧
      s'.receiver.coming = rest ∧ Gains serde gzip s s' [s.processed serde gzip m] := by
  have passes : (s.took m rest).shouldProcessMessage serde m = true := wanted
  have processed : (s.took m rest).processMessage serde gzip m = .ok (s.processed serde gzip m) :=
    processMessage_of_plain plain m
  refine ⟨(s.took m rest).updateStats serde (s.processed serde gzip m), ?_, rfl, rfl, rfl, rfl, rfl,
    ?_⟩
  · rw [accept, if_pos passes, processed]
  · change ((s.receiver.taken ++ [m]).filter (s.shouldProcessMessage serde)).map
      (s.processed serde gzip) = _
    rw [List.filter_append, List.filter_singleton, wanted, List.map_append]
    rfl

theorem accept_unwanted {m : Message Json} (unwanted : s.shouldProcessMessage serde m = false)
    (rest : List (Report (Message Json))) :
    ∃ s', (s.took m rest).accept serde gzip m = (none, s') ∧ Gains serde gzip s s' [] := by
  have passes : ¬ (s.took m rest).shouldProcessMessage serde m = true :=
    ne_true_of_eq_false unwanted
  refine ⟨(s.took m rest).countFiltered, ?_, rfl, rfl, rfl, rfl, ?_⟩
  · rw [accept, if_neg passes]
  · change ((s.receiver.taken ++ [m]).filter (s.shouldProcessMessage serde)).map
      (s.processed serde gzip) = _
    simp only [List.filter_append, List.filter_singleton, unwanted, cond_false, List.append_nil]
    rfl

/-- A gap is passed over by a tolerant subscriber, and ends the call of a strict one. -/
theorem lag_cases (s : Subscriber Json) (count : UInt64) (rest : List (Report (Message Json))) :
    ∃ s', Gains serde gzip s s' [] ∧
      ((s.strict = true ∧ (s.passed rest).handleLagging count = (.error (.lagged count), s')) ∨
        (s.strict = false ∧ (s.passed rest).handleLagging count = (.ok (), s'))) := by
  refine ⟨((s.passed rest).handleLagging count).2,
    (gains_passed s rest).trans (gains_handleLagging _ count), ?_⟩
  cases strict : s.strict with
  | true => exact .inl ⟨rfl, Prod.ext (if_pos (of_decide_eq_true strict)) rfl⟩
  | false => exact .inr ⟨rfl, Prod.ext (if_neg (of_decide_eq_false strict)) rfl⟩

/-- What a call without waiting hands over. -/
def gained : Except TryRecvError (Message Json) → List (Message Json)
  | .ok m => [m]
  | .error _ => []

/-- Whether a reader fails, given the result of its next call and whether it fails after that. -/
def verdict : Except TryRecvError (Message Json) → Bool → Bool
  | .ok _, later => later
  | .error .empty, _ => false
  | .error _, _ => true

/-- What a call without waiting does to a subscriber with the given coming reports. -/
structure Tried (serde : SerdeJson Json) (gzip : Gzip) (s : Subscriber Json)
    (coming : List (Report (Message Json)))
    (call : Except TryRecvError (Message Json) × Subscriber Json) : Prop where
  gains : Gains serde gzip s call.2 (gained call.1)
  finds : s.findsIn serde coming = call.1.toBool
  fails : ∀ room, s.failsWithin serde (room + 1) coming =
    verdict call.1 (s.failsWithin serde room call.2.receiver.coming)

theorem Tried.skip {report : Report (Message Json)} {coming : List (Report (Message Json))}
    {call : Except TryRecvError (Message Json) × Subscriber Json}
    (gains : Gains serde gzip s s' []) (tried : Tried serde gzip s' coming call)
    (finds : s.findsIn serde (report :: coming) = s.findsIn serde coming)
    (fails : ∀ room, s.failsWithin serde (room + 1) (report :: coming) =
      s.failsWithin serde (room + 1) coming) : Tried serde gzip s (report :: coming) call where
  gains := gains.trans tried.gains
  finds := by rw [finds, ← tried.finds, gains.findsIn]
  fails room := by rw [fails, ← gains.failsWithin, tried.fails]

theorem tried_tryRecvInternal (plain : s.Plain) (coming : List (Report (Message Json))) :
    Tried serde gzip s coming (s.tryRecvInternal serde gzip coming) := by
  induction coming generalizing s with
  | nil =>
      refine ⟨Gains.refl s, rfl, fun room => ?_⟩
      unfold tryRecvInternal
      cases closed : s.receiver.closed <;> simp [failsWithin, fails, verdict, closed]
  | cons report rest ih =>
      cases report with
      | message m =>
          cases wanted : s.shouldProcessMessage serde m with
          | true =>
              obtain ⟨s', accepted, left, gains⟩ := @accept_wanted _ serde gzip s plain m wanted rest
              unfold tryRecvInternal
              rw [accepted]
              refine ⟨gains, ?_, fun room => ?_⟩
              · simp [findsIn, finds, wanted, Except.toBool]
              · simp [failsWithin, fails, wanted, verdict, left]
          | false =>
              obtain ⟨s', accepted, gains⟩ := @accept_unwanted _ serde gzip s m wanted rest
              unfold tryRecvInternal
              rw [accepted]
              refine Tried.skip gains (ih (gains.plain plain)) ?_ fun room => ?_
              · simp [findsIn, finds, wanted]
              · simp [failsWithin, fails, wanted]
      | lagged count =>
          obtain ⟨s', gains, lag⟩ := @lag_cases _ serde gzip s count rest
          unfold tryRecvInternal
          rcases lag with ⟨strict, lagged⟩ | ⟨tolerant, lagged⟩
          · rw [lagged]
            refine ⟨gains, ?_, fun room => ?_⟩
            · simp [findsIn, finds, strict, Except.toBool]
            · simp [failsWithin, fails, strict, verdict]
          · rw [lagged]
            refine Tried.skip gains (ih (gains.plain plain)) ?_ fun room => ?_
            · simp [findsIn, finds, tolerant]
            · simp [failsWithin, fails, tolerant]
      | closed => exact ⟨gains_passed s rest, rfl, fun _ => rfl⟩
      | empty elapsed => exact ⟨gains_passed s rest, rfl, fun _ => rfl⟩

theorem tried_tryRecv (plain : s.Plain) :
    Tried serde gzip s s.receiver.coming (s.tryRecv serde gzip) := by
  unfold tryRecv
  rw [plain.popBuffer]
  exact tried_tryRecvInternal plain s.receiver.coming

/-- What a call that may wait hands over. -/
def handed {α : Type} : Outcome (List α) → List α
  | .returned (.ok messages) => messages
  | _ => []

def Outcome.single : Outcome (Message Json) → Outcome (List (Message Json))
  | .returned (.ok m) => .returned (.ok [m])
  | .returned (.error e) => .returned (.error e)
  | .waiting => .waiting
  | .panicked => .panicked

/-- What a call that may wait does to a subscriber with the given coming reports. -/
structure Received (serde : SerdeJson Json) (gzip : Gzip) (s : Subscriber Json)
    (coming : List (Report (Message Json))) (call : Outcome (Message Json) × Subscriber Json) :
    Prop where
  gains : Gains serde gzip s call.2 (handed call.1.single)
  found : ∀ m, call.1 = .returned (.ok m) →
    s.afterFirst serde coming = some call.2.receiver.coming
  missing : (∀ m, call.1 ≠ .returned (.ok m)) → s.afterFirst serde coming = none

theorem Received.skip {report : Report (Message Json)} {coming : List (Report (Message Json))}
    {call : Outcome (Message Json) × Subscriber Json} (gains : Gains serde gzip s s' [])
    (received : Received serde gzip s' coming call)
    (after : s.afterFirst serde (report :: coming) = s.afterFirst serde coming) :
    Received serde gzip s (report :: coming) call where
  gains := gains.trans received.gains
  found m is := by rw [after, ← gains.afterFirst, received.found m is]
  missing none := by rw [after, ← gains.afterFirst, received.missing none]

theorem Received.ended {coming : List (Report (Message Json))} {outcome : Outcome (Message Json)}
    (gains : Gains serde gzip s s' []) (nothing : ∀ m, outcome ≠ .returned (.ok m))
    (after : s.afterFirst serde coming = none) : Received serde gzip s coming (outcome, s') where
  gains := by
    cases outcome with
    | returned result =>
        cases result with
        | ok m => exact absurd rfl (nothing m)
        | error e => exact gains
    | waiting => exact gains
    | panicked => exact gains
  found m is := absurd is (nothing m)
  missing _ := after

theorem received_recvInternal (plain : s.Plain) (coming : List (Report (Message Json))) :
    Received serde gzip s coming (s.recvInternal serde gzip coming) := by
  induction coming generalizing s with
  | nil =>
      unfold recvInternal
      refine Received.ended (Gains.refl s) (fun m => ?_) rfl
      split <;> simp
  | cons report rest ih =>
      unfold recvInternal
      cases report with
      | message m =>
          cases wanted : s.shouldProcessMessage serde m with
          | true =>
              obtain ⟨s', accepted, left, gains⟩ := @accept_wanted _ serde gzip s plain m wanted rest
              simp only [accepted]
              refine ⟨gains, fun _ _ => ?_, fun nothing => absurd rfl (nothing _)⟩
              simp [afterFirst, awaited, wanted, left]
          | false =>
              obtain ⟨s', accepted, gains⟩ := @accept_unwanted _ serde gzip s m wanted rest
              simp only [accepted]
              refine Received.skip gains (ih (gains.plain plain)) ?_
              simp [afterFirst, awaited, wanted]
      | lagged count =>
          obtain ⟨s', gains, lag⟩ := @lag_cases _ serde gzip s count rest
          rcases lag with ⟨strict, lagged⟩ | ⟨tolerant, lagged⟩
          · simp only [lagged]
            refine Received.ended gains (fun m => by simp) ?_
            simp [afterFirst, awaited, strict]
          · simp only [lagged]
            refine Received.skip gains (ih (gains.plain plain)) ?_
            simp [afterFirst, awaited, tolerant]
      | closed => exact Received.ended (gains_passed s rest) (fun m => by simp) rfl
      | empty elapsed =>
          cases timedOut : elapsed && s.options.recvTimeout.isSome with
          | true =>
              simp only [timedOut, if_true]
              refine Received.ended (gains_passed s rest) (fun m => by simp) ?_
              simp only [afterFirst, awaited, timedOut, if_true]
          | false =>
              simp only [timedOut, Bool.false_eq_true, if_false]
              have gains := @gains_passed _ serde gzip s rest
              refine Received.skip gains (ih (gains.plain plain)) ?_
              simp only [afterFirst, awaited, timedOut, Bool.false_eq_true, if_false]

theorem received_recv (plain : s.Plain) :
    Received serde gzip s s.receiver.coming (s.recv serde gzip) := by
  unfold recv
  rw [plain.popBuffer]
  exact received_recvInternal plain s.receiver.coming

/-- The loop of a batch collects what the subscriber gains, and drops it exactly on an error. -/
theorem recvMore_gains (plain : s.Plain) (room : Nat) (messages : List (Message Json)) :
    ∃ more, Gains serde gzip s (s.recvMore serde gzip room messages).2 more ∧
      (s.failsWithin serde room s.receiver.coming = false →
        (s.recvMore serde gzip room messages).1 = .ok (messages ++ more)) ∧
      (s.failsWithin serde room s.receiver.coming = true →
        ∃ e, (s.recvMore serde gzip room messages).1 = .error e) := by
  induction room generalizing s messages with
  | zero =>
      refine ⟨[], Gains.refl s, fun _ => by simp [recvMore], fun failed => ?_⟩
      simp [failsWithin, fails] at failed
  | succ room ih =>
      have tried := @tried_tryRecv _ serde gzip s plain
      unfold recvMore
      rcases called : s.tryRecv serde gzip with ⟨result, s'⟩
      rw [called] at tried
      have fails := tried.fails room
      cases result with
      | ok m =>
          obtain ⟨more, gains, kept, lost⟩ := ih (tried.gains.plain plain) (messages ++ [m])
          refine ⟨m :: more, tried.gains.trans gains, fun safe => ?_, fun failed => ?_⟩
          · rw [fails] at safe
            have later := kept (by rw [tried.gains.failsWithin]; exact safe)
            simpa using later
          · rw [fails] at failed
            exact lost (by rw [tried.gains.failsWithin]; exact failed)
      | error e =>
          cases e with
          | empty =>
              refine ⟨[], tried.gains, fun _ => by simp, fun failed => ?_⟩
              rw [fails] at failed
              cases failed
          | closed =>
              refine ⟨[], tried.gains, fun safe => ?_, fun _ => ⟨_, rfl⟩⟩
              rw [fails] at safe
              cases safe
          | lagged count =>
              refine ⟨[], tried.gains, fun safe => ?_, fun _ => ⟨_, rfl⟩⟩
              rw [fails] at safe
              cases safe

/-- Once the first message of a batch is there, no error comes before the batch is full. -/
def BatchSafe (serde : SerdeJson Json) (s : Subscriber Json) (maxMessages : Nat) : Prop :=
  ∀ rest ∈ s.afterFirst serde s.receiver.coming, s.failsWithin serde (maxMessages - 1) rest = false

theorem recvBatch_gains (plain : s.Plain) (maxMessages : Nat) :
    ∃ more, Gains serde gzip s (s.recvBatch serde gzip maxMessages).2 more ∧
      (handed (s.recvBatch serde gzip maxMessages).1 = more ↔ s.BatchSafe serde maxMessages) := by
  have received := @received_recv _ serde gzip s plain
  unfold recvBatch BatchSafe
  rcases called : s.recv serde gzip with ⟨outcome, s'⟩
  rw [called] at received
  by_cases found : ∃ m, outcome = .returned (.ok m)
  · obtain ⟨first, rfl⟩ := found
    obtain ⟨more, gains, kept, lost⟩ :=
      recvMore_gains (received.gains.plain plain) (maxMessages - 1) [first]
    refine ⟨first :: more, received.gains.trans gains, ?_⟩
    rw [received.found first rfl]
    simp only [Option.mem_some_iff, forall_eq', ← received.gains.failsWithin]
    cases failed : s'.failsWithin serde (maxMessages - 1) s'.receiver.coming with
    | false => simp [kept failed, handed]
    | true =>
        obtain ⟨e, dropped⟩ := lost failed
        simp [dropped, handed]
  · have nothing : ∀ m, outcome ≠ .returned (.ok m) := fun m is => found ⟨m, is⟩
    have gains := received.gains
    rw [received.missing nothing]
    cases outcome with
    | returned result =>
        cases result with
        | ok m => exact absurd rfl (nothing m)
        | error e => exact ⟨[], gains, by simp [handed]⟩
    | waiting => exact ⟨[], gains, by simp [handed]⟩
    | panicked => exact ⟨[], gains, by simp [handed]⟩

/-- The messages of one subscriber among those that a call over several returned. -/
def part (i : Nat) (messages : List (Nat × Message Json)) : List (Message Json) :=
  (messages.filter fun p => p.1 = i).map Prod.snd

theorem part_append (i : Nat) (messages others : List (Nat × Message Json)) :
    part i (messages ++ others) = part i messages ++ part i others := by
  simp [part]

theorem part_of_ne {i : Nat} {messages : List (Nat × Message Json)}
    (other : ∀ p ∈ messages, p.1 ≠ i) : part i messages = [] := by
  unfold part
  rw [List.map_eq_nil_iff, List.filter_eq_nil_iff]
  intro p member
  simpa using other p member

/-- Whether, after some message has been collected or not, a later subscriber meets an error. -/
def eachFails (serde : SerdeJson Json) : Bool → List (Subscriber Json) → Bool
  | _, [] => false
  | collected, s :: rest =>
      if s.failsWithin serde 1 s.receiver.coming then collected
      else eachFails serde (collected || s.findsIn serde s.receiver.coming) rest

/-- What the loop over the subscribers collects, each from its own receiver, and that it drops
this exactly on an error. -/
structure Swept (serde : SerdeJson Json) (gzip : Gzip) (index : Nat)
    (subscribers : List (Subscriber Json)) (messages got : List (Nat × Message Json))
    (call : Except RecvError (List (Nat × Message Json)) × List (Subscriber Json)) : Prop where
  length : call.2.length = subscribers.length
  gains : ∀ i s s', subscribers[i]? = some s → call.2[i]? = some s' →
    Gains serde gzip s s' (part (index + i) got)
  indices : ∀ p ∈ got, index ≤ p.1 ∧ p.1 < index + subscribers.length
  kept : ∀ all, call.1 = .ok all → all = messages ++ got ∧
    eachFails serde (!messages.isEmpty) subscribers = false
  lost : ∀ e, call.1 = .error e →
    (messages ++ got = [] ↔ eachFails serde (!messages.isEmpty) subscribers = false)

theorem Swept.cons {index : Nat} {rest : List (Subscriber Json)}
    {messages first got : List (Nat × Message Json)}
    {call : Except RecvError (List (Nat × Message Json)) × List (Subscriber Json)}
    (gains : Gains serde gzip s s' (part index first)) (only : ∀ p ∈ first, p.1 = index)
    (next : Swept serde gzip (index + 1) rest (messages ++ first) got call)
    (safe : s.failsWithin serde 1 s.receiver.coming = false)
    (finds : (!messages.isEmpty || s.findsIn serde s.receiver.coming) =
      !(messages ++ first).isEmpty) :
    Swept serde gzip index (s :: rest) messages (first ++ got) (call.1, s' :: call.2) where
  length := by rw [List.length_cons, next.length, List.length_cons]
  gains i t t' before after := by
    rw [part_append]
    cases i with
    | zero =>
        obtain rfl := Option.some.inj before
        obtain rfl := Option.some.inj after
        have later : part index got = [] := by
          apply part_of_ne
          intro p member
          have := (next.indices p member).1
          omega
        rw [Nat.add_zero, later, List.append_nil]
        exact gains
    | succ i =>
        have own : part (index + (i + 1)) first = [] := by
          apply part_of_ne
          intro p member
          have := only p member
          omega
        have onward := next.gains i t t' before after
        rw [own, List.nil_append, Nat.add_comm i 1, ← Nat.add_assoc]
        exact onward
  indices p member := by
    rw [List.length_cons]
    rcases List.mem_append.mp member with own | later
    · have := only p own
      omega
    · have := next.indices p later
      omega
  kept all is := by
    obtain ⟨rfl, onward⟩ := next.kept all is
    refine ⟨List.append_assoc _ _ _, ?_⟩
    rw [eachFails, if_neg (ne_true_of_eq_false safe), finds, onward]
  lost e is := by
    rw [eachFails, if_neg (ne_true_of_eq_false safe), finds, ← next.lost e is, List.append_assoc]

theorem swept_recvEach (index : Nat) (subscribers : List (Subscriber Json))
    (messages : List (Nat × Message Json)) (plain : ∀ s ∈ subscribers, s.Plain) :
    ∃ got, Swept serde gzip index subscribers messages got
      (recvEach serde gzip index subscribers messages) := by
  induction subscribers generalizing index messages with
  | nil =>
      refine ⟨[], rfl, fun i s s' here => ?_, by simp, fun all is => ?_, fun e is => ?_⟩
      · simp at here
      · obtain rfl := Except.ok.inj is
        simp [eachFails]
      · cases is
  | cons s rest ih =>
      have here := plain s List.mem_cons_self
      have others : ∀ s ∈ rest, s.Plain := fun s member => plain s (List.mem_cons_of_mem _ member)
      have tried := @tried_tryRecv _ serde gzip s here
      rcases called : s.tryRecv serde gzip with ⟨result, s'⟩
      rw [called] at tried
      have fails := tried.fails 0
      cases result with
      | ok m =>
          obtain ⟨got, swept⟩ := ih (index + 1) (messages ++ [(index, m)]) others
          have safe : s.failsWithin serde 1 s.receiver.coming = false := by
            rw [fails, verdict, failsWithin, Broadcast.fails]
          have ran : recvEach serde gzip index (s :: rest) messages =
              ((recvEach serde gzip (index + 1) rest (messages ++ [(index, m)])).1,
                s' :: (recvEach serde gzip (index + 1) rest (messages ++ [(index, m)])).2) := by
            rw [recvEach, called]
          rw [ran]
          refine ⟨[(index, m)] ++ got, swept.cons ?_ (by simp) safe ?_⟩
          · simpa [part, gained] using tried.gains
          · simp [tried.finds, Except.toBool]
      | error e =>
          by_cases empty : e = .empty
          · subst empty
            obtain ⟨got, swept⟩ := ih (index + 1) (messages ++ []) others
            have ran : recvEach serde gzip index (s :: rest) messages =
                ((recvEach serde gzip (index + 1) rest (messages ++ [])).1,
                  s' :: (recvEach serde gzip (index + 1) rest (messages ++ [])).2) := by
              rw [recvEach, called, List.append_nil]
            rw [ran]
            refine ⟨[] ++ got, Swept.cons tried.gains (by simp) swept fails ?_⟩
            simp [tried.finds, Except.toBool]
          · have stopped : recvEach serde gzip index (s :: rest) messages =
                (.error e.toRecvError, s' :: rest) ∧
                s.failsWithin serde 1 s.receiver.coming = true := by
              rw [recvEach, called, fails]
              cases e with
              | empty => exact absurd rfl empty
              | closed => exact ⟨rfl, rfl⟩
              | lagged count => exact ⟨rfl, rfl⟩
            rw [stopped.1]
            refine ⟨[], rfl, fun i t t' before after => ?_, by simp, fun all is => (by cases is),
              fun e is => ?_⟩
            · cases i with
              | zero =>
                  obtain rfl := Option.some.inj before
                  obtain rfl := Option.some.inj after
                  exact tried.gains
              | succ i =>
                  obtain rfl := Option.some.inj (before.symm.trans after)
                  exact Gains.refl t
            · rw [eachFails, if_pos stopped.2]
              simp

/-- Later states of several subscribers that owe the given messages more. -/
structure Sweeps (serde : SerdeJson Json) (gzip : Gzip) (subscribers later : List (Subscriber Json))
    (got : List (Nat × Message Json)) : Prop where
  length : later.length = subscribers.length
  gains : ∀ i s s', subscribers[i]? = some s → later[i]? = some s' →
    Gains serde gzip s s' (part i got)
  indices : ∀ p ∈ got, p.1 < subscribers.length

def label (i : Nat) (messages : List (Message Json)) : List (Nat × Message Json) :=
  messages.map fun m => (i, m)

theorem part_label_self (i : Nat) (messages : List (Message Json)) :
    part i (label i messages) = messages := by
  induction messages with
  | nil => rfl
  | cons m messages ih => simpa [part, label] using ih

theorem part_label_of_ne {i j : Nat} (other : i ≠ j) (messages : List (Message Json)) :
    part j (label i messages) = [] := by
  apply part_of_ne
  intro p member
  obtain ⟨m, -, rfl⟩ := List.mem_map.mp member
  exact other

theorem Gains.sweeps {subscribers : List (Subscriber Json)} {i : Nat}
    (here : subscribers[i]? = some s) (gains : Gains serde gzip s s' more) :
    Sweeps serde gzip subscribers (subscribers.set i s') (label i more) where
  length := List.length_set
  gains j t t' before after := by
    by_cases same : i = j
    · subst same
      obtain rfl := Option.some.inj (here.symm.trans before)
      rw [List.getElem?_set_self (List.getElem?_eq_some_iff.mp here).1] at after
      obtain rfl := Option.some.inj after
      rw [part_label_self]
      exact gains
    · rw [List.getElem?_set_ne same] at after
      obtain rfl := Option.some.inj (before.symm.trans after)
      rw [part_label_of_ne same]
      exact Gains.refl t
  indices p member := by
    obtain ⟨m, -, rfl⟩ := List.mem_map.mp member
    exact (List.getElem?_eq_some_iff.mp here).1

theorem Sweeps.trans {subscribers later latest : List (Subscriber Json)}
    {got others : List (Nat × Message Json)} (first : Sweeps serde gzip subscribers later got)
    (second : Sweeps serde gzip later latest others) :
    Sweeps serde gzip subscribers latest (got ++ others) where
  length := second.length.trans first.length
  gains i s s'' before after := by
    have inside := (List.getElem?_eq_some_iff.mp before).1
    rw [← first.length] at inside
    have between := List.getElem?_eq_getElem inside
    rw [part_append]
    exact (first.gains i s _ before between).trans (second.gains i _ s'' between after)
  indices p member := by
    rcases List.mem_append.mp member with own | later
    · exact first.indices p own
    · rw [← first.length]
      exact second.indices p later

theorem Sweeps.plain {subscribers later : List (Subscriber Json)}
    {got : List (Nat × Message Json)} (sweeps : Sweeps serde gzip subscribers later got)
    (plain : ∀ s ∈ subscribers, s.Plain) : ∀ s ∈ later, s.Plain := by
  intro s' member
  obtain ⟨i, inside, rfl⟩ := List.mem_iff_getElem.mp member
  have before := inside
  rw [sweeps.length] at before
  exact (sweeps.gains i _ _ (List.getElem?_eq_getElem before)
    (List.getElem?_eq_getElem inside)).plain (plain _ (List.getElem_mem before))

theorem Swept.sweeps {subscribers : List (Subscriber Json)} {got : List (Nat × Message Json)}
    {call : Except RecvError (List (Nat × Message Json)) × List (Subscriber Json)}
    (swept : Swept serde gzip 0 subscribers [] got call) :
    Sweeps serde gzip subscribers call.2 got where
  length := swept.length
  gains i s s' before after := by
    have gains := swept.gains i s s' before after
    rwa [Nat.zero_add] at gains
  indices p member := by
    have bounds := (swept.indices p member).2
    rwa [Nat.zero_add] at bounds

theorem recvFirst_sweeps {subscribers : List (Subscriber Json)}
    (plain : ∀ s ∈ subscribers, s.Plain) :
    Sweeps serde gzip subscribers (recvFirst serde gzip subscribers).2
      (handed (recvFirst serde gzip subscribers).1) := by
  cases subscribers with
  | nil => exact ⟨rfl, fun i s s' before _ => by simp at before, fun p member => by cases member⟩
  | cons s rest =>
      have received := @received_recv _ serde gzip s (plain s List.mem_cons_self)
      have first : (s :: rest)[0]? = some s := rfl
      have sweeps := received.gains.sweeps first
      rcases called : s.recv serde gzip with ⟨outcome, s'⟩
      rw [called] at sweeps
      rw [recvFirst, called]
      cases outcome with
      | returned result =>
          cases result with
          | ok m => exact sweeps
          | error e => exact sweeps
      | waiting => exact sweeps
      | panicked => exact sweeps

theorem recvAll_sweeps {subscribers : List (Subscriber Json)}
    (plain : ∀ s ∈ subscribers, s.Plain) :
    ∃ got, Sweeps serde gzip subscribers (recvAll serde gzip subscribers).2 got ∧
      (eachFails serde false subscribers = false → handed (recvAll serde gzip subscribers).1 = got) ∧
      (eachFails serde false subscribers = true →
        handed (recvAll serde gzip subscribers).1 = [] ∧ got ≠ []) := by
  obtain ⟨got, swept⟩ := @swept_recvEach _ serde gzip 0 subscribers [] plain
  unfold recvAll
  rcases called : recvEach serde gzip 0 subscribers [] with ⟨result, later⟩
  rw [called] at swept
  cases result with
  | ok messages =>
      obtain ⟨rfl, safe⟩ := swept.kept messages rfl
      have unfailing : eachFails serde false subscribers = false := safe
      cases messages with
      | nil =>
          have first := @recvFirst_sweeps _ serde gzip later (swept.sweeps.plain plain)
          exact ⟨_, swept.sweeps.trans first, fun _ => rfl, fun failed => by
            rw [unfailing] at failed
            cases failed⟩
      | cons p messages =>
          exact ⟨p :: messages, swept.sweeps, fun _ => rfl, fun failed => by
            rw [unfailing] at failed
            cases failed⟩
  | error e =>
      have lost := swept.lost e rfl
      refine ⟨got, swept.sweeps, fun safe => (lost.mpr safe).symm, fun failed => ⟨rfl, fun none => ?_⟩⟩
      have safe := lost.mp none
      rw [show (!([] : List (Nat × Message Json)).isEmpty) = false from rfl, failed] at safe
      cases safe

end Subscriber

open Subscriber

/-- The calls of one subscriber by its index, and those of all of them. -/
inductive ReceiveCall where
  | recv (i : Nat)
  | tryRecv (i : Nat)
  | recvBatch (i maxMessages : Nat)
  | recvAll

/-- Subscribers, and the messages returned to the caller from each so far. -/
structure Reception (Json : Type) where
  subscribers : List (Subscriber Json)
  returned : Nat → List (Message Json)

namespace Reception

def new (subscribers : List (Subscriber Json)) : Reception Json := ⟨subscribers, fun _ => []⟩

def settle (r : Reception Json) (subscribers : List (Subscriber Json))
    (messages : List (Nat × Message Json)) : Reception Json :=
  ⟨subscribers, fun i => r.returned i ++ part i messages⟩

/-- A call of one subscriber; `none` when there is no such subscriber. -/
def callOne (r : Reception Json) (i : Nat)
    (call : Subscriber Json → Outcome (List (Message Json)) × Subscriber Json) :
    Option (Reception Json) :=
  match r.subscribers[i]? with
  | none => none
  | some s => some (r.settle (r.subscribers.set i (call s).2) (label i (handed (call s).1)))

/-- A call that has not returned can be dropped where it waits. -/
def step (serde : SerdeJson Json) (gzip : Gzip) (r : Reception Json) :
    ReceiveCall → Option (Reception Json)
  | .recv i => r.callOne i fun s => ((s.recv serde gzip).1.single, (s.recv serde gzip).2)
  | .tryRecv i => r.callOne i fun s =>
      (.returned (.ok (gained (s.tryRecv serde gzip).1)), (s.tryRecv serde gzip).2)
  | .recvBatch i maxMessages => r.callOne i fun s => s.recvBatch serde gzip maxMessages
  | .recvAll =>
      let call := Subscriber.recvAll serde gzip r.subscribers
      some (r.settle call.2 (handed call.1))

/-- From each subscriber exactly the messages taken out of its receiver that pass the filters have
been returned, in order. -/
def Conserved (serde : SerdeJson Json) (gzip : Gzip) (r : Reception Json) : Prop :=
  ∀ i s, r.subscribers[i]? = some s → r.returned i = s.owed serde gzip

/-- No call meets an error after it has collected a message. -/
def Undisturbed (serde : SerdeJson Json) (r : Reception Json) : ReceiveCall → Prop
  | .recvBatch i maxMessages => ∀ s ∈ r.subscribers[i]?, s.BatchSafe serde maxMessages
  | .recvAll => eachFails serde false r.subscribers = false
  | _ => True

instance (r : Reception Json) (call : ReceiveCall) : Decidable (r.Undisturbed serde call) :=
  match call with
  | .recv _ => isTrue trivial
  | .tryRecv _ => isTrue trivial
  | .recvBatch i _ =>
      inferInstanceAs (Decidable (∀ s ∈ r.subscribers[i]?, ∀ rest ∈ s.afterFirst serde _, _ = false))
  | .recvAll => inferInstanceAs (Decidable (_ = false))

variable {serde gzip} {r r' : Reception Json}

theorem conserved_settle_iff (conserved : r.Conserved serde gzip) {later : List (Subscriber Json)}
    {got : List (Nat × Message Json)} (sweeps : Sweeps serde gzip r.subscribers later got)
    (messages : List (Nat × Message Json)) :
    (r.settle later messages).Conserved serde gzip ↔
      ∀ i, i < r.subscribers.length → part i messages = part i got := by
  constructor
  · intro after i inside
    have before := List.getElem?_eq_getElem inside
    rw [← sweeps.length] at inside
    have now := List.getElem?_eq_getElem inside
    have balance := after i _ now
    rw [(sweeps.gains i _ _ before now).owed, ← conserved i _ before] at balance
    exact List.append_cancel_left balance
  · intro same i s' now
    have inside : i < later.length := (List.getElem?_eq_some_iff.mp now).1
    rw [sweeps.length] at inside
    have before := List.getElem?_eq_getElem inside
    rw [(sweeps.gains i _ s' before now).owed, ← conserved i _ before, ← same i inside]
    rfl

theorem conserved_callOne_iff (conserved : r.Conserved serde gzip) {i : Nat}
    {call : Subscriber Json → Outcome (List (Message Json)) × Subscriber Json}
    (done : r.callOne i call = some r') {s : Subscriber Json} (here : r.subscribers[i]? = some s)
    {more : List (Message Json)} (gains : Gains serde gzip s (call s).2 more) :
    r'.Conserved serde gzip ↔ handed (call s).1 = more := by
  unfold callOne at done
  simp only [here] at done
  obtain rfl := Option.some.inj done
  rw [conserved_settle_iff conserved (gains.sweeps here)]
  constructor
  · intro same
    have own := same i (List.getElem?_eq_some_iff.mp here).1
    rwa [part_label_self, part_label_self] at own
  · rintro rfl j -
    rfl

theorem exists_of_callOne {i : Nat}
    {call : Subscriber Json → Outcome (List (Message Json)) × Subscriber Json}
    (done : r.callOne i call = some r') : ∃ s, r.subscribers[i]? = some s := by
  unfold callOne at done
  split at done
  · cases done
  · rename_i s here
    exact ⟨s, here⟩

theorem conserved_step_iff (plain : ∀ s ∈ r.subscribers, s.Plain)
    (conserved : r.Conserved serde gzip) {call : ReceiveCall}
    (done : r.step serde gzip call = some r') :
    r'.Conserved serde gzip ↔ r.Undisturbed serde call := by
  cases call with
  | recv i =>
      obtain ⟨s, here⟩ := exists_of_callOne done
      have received := @received_recv _ serde gzip s (plain s (List.mem_of_getElem? here))
      exact iff_of_true ((conserved_callOne_iff conserved done here received.gains).mpr rfl) trivial
  | tryRecv i =>
      obtain ⟨s, here⟩ := exists_of_callOne done
      have tried := @tried_tryRecv _ serde gzip s (plain s (List.mem_of_getElem? here))
      exact iff_of_true ((conserved_callOne_iff conserved done here tried.gains).mpr rfl) trivial
  | recvBatch i maxMessages =>
      obtain ⟨s, here⟩ := exists_of_callOne done
      obtain ⟨more, gains, safe⟩ :=
        @recvBatch_gains _ serde gzip s (plain s (List.mem_of_getElem? here)) maxMessages
      rw [conserved_callOne_iff conserved done here gains, safe, Undisturbed, here]
      simp
  | recvAll =>
      obtain ⟨got, sweeps, kept, lost⟩ := @recvAll_sweeps _ serde gzip r.subscribers plain
      obtain rfl := Option.some.inj done
      rw [conserved_settle_iff conserved sweeps, Undisturbed]
      cases failed : eachFails serde false r.subscribers with
      | false =>
          rw [kept failed]
          exact iff_of_true (fun _ _ => rfl) rfl
      | true =>
          obtain ⟨nothing, some'⟩ := lost failed
          refine iff_of_false (fun same => ?_) (by simp)
          obtain ⟨p, member⟩ := List.exists_mem_of_ne_nil got some'
          have own := same p.1 (sweeps.indices p member)
          rw [nothing] at own
          have inside : p.2 ∈ part p.1 got := by
            rw [part, List.mem_map]
            exact ⟨p, List.mem_filter.mpr ⟨member, by simp⟩, rfl⟩
          rw [← own] at inside
          cases inside

theorem sweeps_callOne {i : Nat}
    {call : Subscriber Json → Outcome (List (Message Json)) × Subscriber Json}
    (done : r.callOne i call = some r')
    (each : ∀ s ∈ r.subscribers, ∃ more, Gains serde gzip s (call s).2 more) :
    ∃ got, Sweeps serde gzip r.subscribers r'.subscribers got := by
  obtain ⟨s, here⟩ := exists_of_callOne done
  obtain ⟨more, gains⟩ := each s (List.mem_of_getElem? here)
  unfold callOne at done
  simp only [here] at done
  obtain rfl := Option.some.inj done
  exact ⟨_, gains.sweeps here⟩

theorem sweeps_step (plain : ∀ s ∈ r.subscribers, s.Plain) {call : ReceiveCall}
    (done : r.step serde gzip call = some r') :
    ∃ got, Sweeps serde gzip r.subscribers r'.subscribers got := by
  cases call with
  | recv i => exact sweeps_callOne done fun s member => ⟨_, (received_recv (plain s member)).gains⟩
  | tryRecv i => exact sweeps_callOne done fun s member => ⟨_, (tried_tryRecv (plain s member)).gains⟩
  | recvBatch i maxMessages =>
      refine sweeps_callOne done fun s member => ?_
      obtain ⟨more, gains, -⟩ := @recvBatch_gains _ serde gzip s (plain s member) maxMessages
      exact ⟨more, gains⟩
  | recvAll =>
      obtain ⟨got, sweeps, -⟩ := @recvAll_sweeps _ serde gzip r.subscribers plain
      obtain rfl := Option.some.inj done
      exact ⟨got, sweeps⟩

/-- What the calls keep as long as none of them is disturbed. -/
structure Settled (serde : SerdeJson Json) (gzip : Gzip) (r : Reception Json) : Prop where
  plain : ∀ s ∈ r.subscribers, s.Plain
  conserved : r.Conserved serde gzip

theorem undisturbed_of_none {call : ReceiveCall} (refused : r.step serde gzip call = none) :
    r.Undisturbed serde call := by
  cases call with
  | recvBatch i maxMessages =>
      intro s here
      simp only [step, callOne, Option.mem_def.mp here] at refused
      cases refused
  | recvAll => cases refused
  | _ => trivial

theorem settled_step (start : Settled serde gzip r) (call : ReceiveCall) :
    (∀ r' ∈ r.step serde gzip call, r'.Conserved serde gzip) ↔ r.Undisturbed serde call := by
  cases done : r.step serde gzip call with
  | none => exact iff_of_true (fun r' member => by cases member) (undisturbed_of_none done)
  | some r' =>
      rw [← conserved_step_iff start.plain start.conserved done]
      simp

end Reception

/-- A bounded queue with what will happen to it, and how it is subscribed to. -/
structure Subscription (Json : Type) where
  fifo : Fifo (Message Json)
  turns : List (Turn (Message Json))
  channel : Str
  options : SubscriptionOptions
  filters : MessageFilters Json

def Subscription.subscriber (s : Subscription Json) : Subscriber Json :=
  { Subscriber.new (s.fifo.receiver s.turns) s.channel s.options with filters := s.filters }

/-- However messages arrive, are lost to lag or end, and in whatever order the calls are made, none
that was taken out is missing from what was returned if and only if no batch, and no call over all
subscribers, meets an error after it has collected a message. -/
theorem conserved_iff_undisturbed (serde : SerdeJson Json) (gzip : Gzip)
    (subscriptions : List (Subscription Json))
    (plain : ∀ s ∈ subscriptions, s.options.enableCompression = false) (calls : List ReceiveCall) :
    (∀ n r, Runs.run (Reception.step serde gzip)
        (Reception.new (subscriptions.map Subscription.subscriber)) (calls.take n) = some r →
      r.Conserved serde gzip) ↔
    Runs.Along (Reception.step serde gzip) (Reception.Undisturbed serde)
      (Reception.new (subscriptions.map Subscription.subscriber)) calls := by
  have ready : ∀ s ∈ (Reception.new (subscriptions.map Subscription.subscriber)).subscribers,
      s.Plain := by
    intro s member
    obtain ⟨t, inside, rfl⟩ := List.mem_map.mp member
    refine ⟨plain t inside, ?_⟩
    change (if t.options.enableMessageBuffer then some [] else none : Option _).getD [] = []
    split <;> rfl
  have balanced : (Reception.new (subscriptions.map Subscription.subscriber)).Conserved serde
      gzip := by
    intro i s here
    obtain ⟨t, inside, rfl⟩ := List.mem_map.mp (List.mem_of_getElem? here)
    rfl
  rw [Runs.always_iff_along, and_iff_right balanced]
  have keeps : ∀ r call r', Reception.Settled serde gzip r →
      (∀ r' ∈ Reception.step serde gzip r call, r'.Conserved serde gzip) →
      Reception.step serde gzip r call = some r' → Reception.Settled serde gzip r' := by
    intro r call r' start kept done
    obtain ⟨got, sweeps⟩ := Reception.sweeps_step start.plain done
    exact ⟨sweeps.plain start.plain, kept r' done⟩
  exact Runs.along_congr_of_kept keeps (fun r call start => Reception.settled_step start call)
    ⟨ready, balanced⟩

/-- `serde_json` for the one value `null`, and a compression that nothing here uses. -/
def nullSerde : SerdeJson Unit where
  toString _ := .ok (Str.lit "null")
  fromStr text :=
    if text = Str.lit "null" then .ok ()
    else .error (Str.lit "expected value at line 1 column 1")
  objectKeys _ := none
  metadataToString _ := .error (Str.lit "")
  metadataFromStr _ := .error (Str.lit "")

def noGzip : Gzip := ⟨id, some⟩

/-- A subscription to a channel with room for two messages, on which `a`, `b` and `c` are sent before
the first read. -/
def threeSent (closes : Bool) (lagHandling : LagHandling) : Subscription Unit where
  fifo := Fifo.new 2
  turns := [⟨[⟨Str.lit "c", .string (Str.lit "a"), none⟩, ⟨Str.lit "c", .string (Str.lit "b"), none⟩,
    ⟨Str.lit "c", .string (Str.lit "c"), none⟩], closes, false⟩]
  channel := Str.lit "c"
  options := { SubscriptionOptions.default with
    enableCompression := false, lagHandling := lagHandling }
  filters := .default

theorem conserved_three_sent : ∃ r, Runs.run (Reception.step nullSerde noGzip)
    (Reception.new ([threeSent false .ignore, threeSent false .error].map Subscription.subscriber))
    [ReceiveCall.recvBatch 0 5, .tryRecv 1, .recvAll] = some r ∧
      r.Conserved nullSerde noGzip := by
  refine ⟨_, rfl, ?_⟩
  refine (conserved_iff_undisturbed nullSerde noGzip [threeSent false .ignore, threeSent false .error]
    ?_ [.recvBatch 0 5, .tryRecv 1, .recvAll]).mpr ?_ 3 _ rfl
  · simp [threeSent]
  · decide

/-- A batch that meets the end of the channel keeps nothing of what it collected. -/
theorem batch_dropped :
    ¬ ∀ (serde : SerdeJson Unit) (gzip : Gzip) (subscriptions : List (Subscription Unit)),
      (∀ s ∈ subscriptions, s.options.enableCompression = false) →
      ∀ (calls : List ReceiveCall) (n : Nat) (r : Reception Unit),
        Runs.run (Reception.step serde gzip)
          (Reception.new (subscriptions.map Subscription.subscriber)) (calls.take n) = some r →
        r.Conserved serde gzip := by
  intro always
  have conserved := always nullSerde noGzip [threeSent true .ignore] (by simp [threeSent])
    [.recvBatch 0 5] 1 _ rfl
  have balance := conserved 0 _ rfl
  exact absurd balance (by decide)

end Zumic.Pubsub
