/-
  Work through a queue of nodes under a monitor.

  The queue holds each node at most once.  A turn takes the first node, asks the monitor
  whether to go on, processes the node and reports one unit of work.  The run ends when the
  queue is empty, when the monitor cancels or when processing fails.
-/
import StreamVerdict.Data.Iterate

namespace StreamVerdict

/-- Decides whether long work goes on, and counts the work that is done. -/
structure Monitor where
  /-- How many more times the answer is to go on; `none` for always. -/
  patience : Option Nat := none
  /-- Why the work is cancelled, once it is. -/
  reason : String := "cancelled"
  work : Nat := 0
deriving DecidableEq

namespace Monitor

/-- Never cancels. -/
def unlimited : Monitor := {}

/-- Asks whether to go on: the reason not to, if there is one. -/
def check (m : Monitor) : Option String × Monitor :=
  match m.patience with
  | none => (none, m)
  | some 0 => (some m.reason, m)
  | some (n + 1) => (none, { m with patience := some n })

/-- Reports one unit of work. -/
def worked (m : Monitor) : Monitor := { m with work := m.work + 1 }

end Monitor

namespace Worklist

/-- Puts a node at the end of the queue unless it is in it.  There is no set of queued nodes
    beside the queue: a node is queued just if it is in the queue. -/
def enqueue (queue : List Nat) (n : Nat) : List Nat := if n ∈ queue then queue else queue ++ [n]

def enqueueAll (queue : List Nat) (ns : List Nat) : List Nat := ns.foldl enqueue queue

/-- How the queue of a state is taken from, and how a node is processed. -/
structure Machine (σ ε : Type) where
  take? : σ → Option (Nat × σ)
  process : Nat → σ → Except ε σ

/-- How a run ended. -/
inductive Ending (σ ε : Type) where
  /-- The queue is empty. -/
  | settled (s : σ)
  | cancelled (reason : String) (s : σ)
  | failed (e : ε)
  /-- The bound on the number of turns was reached, or the turns have no end. -/
  | unfinished (s : σ)

variable {σ ε : Type}

/-- One turn. -/
def Machine.turn (m : Machine σ ε) (at_ : Monitor × σ) : (Monitor × σ) ⊕ (Monitor × Ending σ ε) :=
  match m.take? at_.2 with
  | none => .inr (at_.1, .settled at_.2)
  | some (n, s) =>
    match at_.1.check with
    | (some reason, monitor) => .inr (monitor, .cancelled reason s)
    | (none, monitor) =>
      match m.process n s with
      | .error e => .inr (monitor, .failed e)
      | .ok s' => .inl (monitor.worked, s')

/-- What a bounded run comes to. -/
def conclude : (Monitor × σ) ⊕ (Monitor × Ending σ ε) → Monitor × Ending σ ε
  | .inl (monitor, s) => (monitor, .unfinished s)
  | .inr r => r

/-- A run of up to `n` turns. -/
def Machine.run (m : Machine σ ε) (n : Nat) (monitor : Monitor) (s : σ) : Monitor × Ending σ ε :=
  conclude (iterate m.turn n (monitor, s))

/-- A run until the queue is empty, the monitor cancels or a node cannot be processed.  Patience
    for `n` more nodes is patience for no more than `n + 1` turns; a monitor that never cancels
    sets no bound, and then there may be no end. -/
def Machine.runToEnd (m : Machine σ ε) (monitor : Monitor) (s : σ) : Monitor × Ending σ ε :=
  match monitor.patience with
  | some n => m.run (n + 1) monitor s
  | none => (iterateToEnd m.turn (monitor, s)).getD (monitor, .unfinished s)

end Worklist
end StreamVerdict
