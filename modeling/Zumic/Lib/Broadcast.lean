/- The receiver of a broadcast channel: a queue of bounded length that drops what is oldest, and what
it reports to the calls that read it while others send. -/

namespace Zumic.Lib.Broadcast

variable {α : Type}

/-- What a call finds; `elapsed` tells whether a timer has run out when it finds nothing. -/
inductive Report (α : Type) where
  | message (a : α)
  | lagged (count : UInt64)
  | closed
  | empty (elapsed : Bool)
  deriving DecidableEq

/-- The queue, and how many messages it dropped since it was last read. -/
structure Fifo (α : Type) where
  capacity : Nat
  queue : List α
  missed : Nat
  closed : Bool

namespace Fifo

def new (capacity : Nat) : Fifo α := ⟨capacity, [], 0, false⟩

def send (f : Fifo α) (a : α) : Fifo α :=
  if f.closed then f
  else if f.queue.length < f.capacity then { f with queue := f.queue ++ [a] }
  else { f with queue := f.queue.tail ++ [a], missed := f.missed + 1 }

/-- A gap is reported before what follows it, and the end of the channel after everything. -/
def receive (f : Fifo α) (elapsed : Bool) : Report α × Fifo α :=
  if f.missed ≠ 0 then (.lagged (UInt64.ofNat f.missed), { f with missed := 0 })
  else
    match f.queue with
    | a :: queue => (.message a, { f with queue := queue })
    | [] => if f.closed then (.closed, f) else (.empty elapsed, f)

end Fifo

/-- What happens to a channel before it is read once more. -/
structure Turn (α : Type) where
  sent : List α
  closes : Bool
  elapsed : Bool

def Fifo.turn (f : Fifo α) (t : Turn α) : Fifo α :=
  let f := t.sent.foldl Fifo.send f
  { f with closed := f.closed || t.closes }

/-- What is left when nothing more happens. -/
def Fifo.rest (f : Fifo α) : List (Report α) :=
  (if f.missed ≠ 0 then [.lagged (UInt64.ofNat f.missed)] else []) ++ f.queue.map .message

/-- What the reads report, one after another, and the channel after the last turn. -/
def Fifo.reports : Fifo α → List (Turn α) → List (Report α) × Fifo α
  | f, [] => (f.rest, f)
  | f, t :: turns =>
      let read := (f.turn t).receive t.elapsed
      let others := reports read.2 turns
      (read.1 :: others.1, others.2)

/-- A receiver: what it will report, what it reports after that, and what was taken out of it. -/
structure Receiver (α : Type) where
  coming : List (Report α)
  closed : Bool
  taken : List α

def Fifo.receiver (f : Fifo α) (turns : List (Turn α)) : Receiver α :=
  ⟨(f.reports turns).1, (f.reports turns).2.closed, []⟩

/-- The receiver after a report without a message, and after one with it. -/
def Receiver.pass (r : Receiver α) (rest : List (Report α)) : Receiver α :=
  { r with coming := rest }

def Receiver.take (r : Receiver α) (a : α) (rest : List (Report α)) : Receiver α :=
  { r with coming := rest, taken := r.taken ++ [a] }

section

/-! A reader passes over messages that it does not want and, unless it is strict, over gaps. -/

variable (wants : α → Bool) (strict : Bool)

/-- Whether a reader that does not wait finds a message. -/
def finds : List (Report α) → Bool
  | .message a :: rest => wants a || finds rest
  | .lagged _ :: rest => !strict && finds rest
  | _ => false

/-- Whether it meets an error before it has found as many messages as it has room for. -/
def fails (closed : Bool) : Nat → List (Report α) → Bool
  | 0, _ => false
  | _ + 1, [] => closed
  | room + 1, .message a :: rest =>
      if wants a then fails closed room rest else fails closed (room + 1) rest
  | room + 1, .lagged _ :: rest => strict || fails closed (room + 1) rest
  | _ + 1, .closed :: _ => true
  | _ + 1, .empty _ :: _ => false

/-- What a reader that waits has before it once it has found a message; `none` when it finds none,
or its timer runs out first. -/
def awaited (timed : Bool) : List (Report α) → Option (List (Report α))
  | [] => none
  | .message a :: rest => if wants a then some rest else awaited timed rest
  | .lagged _ :: rest => if strict then none else awaited timed rest
  | .closed :: _ => none
  | .empty elapsed :: rest => if elapsed && timed then none else awaited timed rest

end

end Zumic.Lib.Broadcast
