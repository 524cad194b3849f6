/-
  The states that objects may be in, across calls.

  Each object is solved alone.  A node has the set of states with which it may be entered and
  the set with which it may be left; both only grow.  Walking through the body of a node, the
  allocation of the object and the calls on it change the current states, the states at a
  call flow into the called nodes, and the states with which those may be left flow back.
  Nodes are worked through until nothing changes.
-/
import StreamVerdict.CallGraph.Built
import StreamVerdict.Data.Worklist
import StreamVerdict.Hierarchy.Basic
import StreamVerdict.Typestate.Solution

namespace StreamVerdict

/-- Limits of a solve. -/
structure SolverLimits where
  timeoutMs : UInt64 := 60000
  maxFindings : UInt64 := 10000
deriving DecidableEq

/-- Why a solve failed. -/
inductive SolverError where
  | timeout (elapsedMs : Nat) (budgetMs : UInt64)
  | maxFindings (limit : UInt64)
  | invalidProtocol (e : ProtocolError)
  | unknownType (tracked : TypeName) (project : ProjectId)
  | cancelled (reason : String)
  /-- The bound on the number of turns was reached; the bound is never too small. -/
  | unfinished
deriving DecidableEq

namespace SolverError

def message : SolverError → String
  | timeout elapsed budget =>
    "Typestate solver timed out after " ++ toString elapsed ++ " ms (budget " ++
      toString budget.toNat ++ " ms)"
  | maxFindings limit => "Typestate solver exceeded " ++ toString limit.toNat ++ " findings"
  | invalidProtocol e => "Typestate solver setup failed: " ++ e.message
  | unknownType t p =>
    "Typestate solver setup failed: Tracked type " ++ t.binary ++
      " is not in the class hierarchy of " ++ p.name
  | cancelled reason => "Typestate solve cancelled: " ++ reason
  | unfinished => "Typestate solve did not settle"

def label : SolverError → String
  | timeout _ _ => "Timeout"
  | maxFindings _ => "MaxFindings"
  | invalidProtocol _ => "SetUp"
  | unknownType _ _ => "SetUp"
  | cancelled _ => "Cancelled"
  | unfinished => "Unfinished"

instance : Explained SolverError := ⟨label, message⟩

def kind : SolverError → ErrorKind
  | timeout _ _ => .solverTimeout
  | maxFindings _ => .maxFindings
  | invalidProtocol _ => .solverSetup
  | unknownType _ _ => .solverSetup
  | cancelled _ => .cancelled
  | unfinished => .internal

def toAnalysisError (e : SolverError) : AnalysisError := AnalysisError.ofCause e.kind e.message

end SolverError

namespace Typestate

/-- Sets of states by node; a node that is not listed has the empty set. -/
abbrev Facts := List (Nat × OrdSet State)

namespace Facts

def get (f : Facts) (n : Nat) : OrdSet State := (f.lookup n).getD ∅

/-- Adds states to the set of a node. -/
def join (f : Facts) (n : Nat) (s : OrdSet State) : Facts :=
  (n, (get f n).union s) :: f.filter fun c => c.1 ≠ n

/-- Some of the states are not in the set of the node yet. -/
def lacks (f : Facts) (n : Nat) (s : OrdSet State) : Bool := s.toList.any fun q => q ∉ get f n

end Facts

/-- What the solve of one object works from. -/
structure Problem where
  graph : BuiltGraph
  protocol : Protocol
  object : Instance

/-- How far the solve of one object has come. -/
structure Progress where
  entry : Facts
  exit : Facts
  /-- Nodes to be processed, each once. -/
  queue : List Nat
  /-- The events of this object, newest first. -/
  events : List Event
  /-- The marks of the changes that this object was seen to make. -/
  seen : List (Nat × Nat × State × State)
  seen_eq : seen = events.map Event.mark
deriving DecidableEq

namespace Progress

/-- Nothing was done yet. -/
def blank : Progress := ⟨[], [], [], [], [], rfl⟩

/-- A change was seen if there is an event with its mark. -/
theorem mem_seen {s : Progress} {mark : Nat × Nat × State × State} :
    mark ∈ s.seen ↔ ∃ e ∈ s.events, e.mark = mark := by
  rw [s.seen_eq, List.mem_map]

def enqueue (s : Progress) (n : Nat) : Progress := { s with queue := Worklist.enqueue s.queue n }

/-- The states flow into a node, which is queued if it may now be entered with more. -/
def enter (s : Progress) (n : Nat) (states : OrdSet State) : Progress :=
  let s' := { s with entry := Facts.join s.entry n states }
  if Facts.lacks s.entry n states then s'.enqueue n else s'

/-- The states flow out of a node; its callers are queued if it may now be left with more. -/
def leave (g : CallGraph) (s : Progress) (n : Nat) (states : OrdSet State) : Progress :=
  let s' := { s with exit := Facts.join s.exit n states }
  if Facts.lacks s.exit n states then
    { s' with queue := Worklist.enqueueAll s'.queue (g.callers n) }
  else s'

/-- Adds an event unless its change was seen before. -/
def record (s : Progress) (e : Event) : Progress :=
  if e.mark ∈ s.seen then s
  else
    { s with
      events := e :: s.events
      seen := e.mark :: s.seen
      seen_eq := congrArg (List.cons e.mark) s.seen_eq }

def take? (s : Progress) : Option (Nat × Progress) :=
  match s.queue with
  | [] => none
  | n :: queue => some (n, { s with queue })

end Progress

/-- An action on the object at an instruction.  A state for which the protocol has no
    transition stays; every change of state is an event. -/
def act (p : Problem) (n : Nat) (x : Node) (iindex : Nat) (action : Action)
    (acc : Progress × OrdSet State) : Progress × OrdSet State :=
  acc.2.toList.foldl
    (fun done source =>
      match p.protocol.next? source action with
      | none => (done.1, done.2.insert source)
      | some target =>
        let s := if target = source then done.1
          else done.1.record ⟨p.object, n, x.method, iindex, action, source, target⟩
        (s, done.2.insert target))
    (acc.1, ∅)

/-- A call flows into one called node, and what may come back flows out of it. -/
def visitCallee (acc : Progress × OrdSet State) (callee : Nat) : Progress × OrdSet State :=
  let s := acc.1.enter callee acc.2
  (s, acc.2.union (Facts.get s.exit callee))

/-- Walks over one instruction of node `n`. -/
def walk (p : Problem) (n : Nat) (x : Node) (acc : Progress × OrdSet State) :
    Instruction → Progress × OrdSet State
  | .new iindex _ site _ =>
    if Instance.allocated x.method site x.context.callString = p.object then
      act p n x iindex .alloc acc
    else acc
  | .invoke iindex _ args site _ =>
    let onObject := !site.kind.isStatic &&
      args.head?.any fun v => p.object ∈ p.graph.pointsTo.get n v
    let acc := if onObject then act p n x iindex ⟨site.declaredTarget.name⟩ acc else acc
    (p.graph.graph.targets n site).foldl visitCallee acc
  | .ret _ _ _ => (acc.1.leave p.graph.graph n acc.2, acc.2)

/-- Processes a node. -/
def process (p : Problem) (n : Nat) (s : Progress) : Progress :=
  match p.graph.graph.node? n, p.graph.body? n with
  | some x, some b =>
    let (s, states) := b.instructions.foldl (walk p n x) (s, Facts.get s.entry n)
    s.leave p.graph.graph n states
  | _, _ => s

/-- The start of a solve: every entry point may be entered with the initial state. -/
def start (p : Problem) : Progress :=
  p.graph.graph.entrypoints.foldl
    (fun s n =>
      { s with entry := Facts.join s.entry n (OrdSet.ofList [p.protocol.initial]) }.enqueue n)
    .blank

/-- The solve of one object as work on a queue of nodes.  It fails if no time is left, or if
    this object's events and `earlier` ones are more than allowed.  No time passes in a solve,
    so that only a budget of zero runs out. -/
def machine (limits : SolverLimits) (earlier : Nat) (p : Problem) :
    Worklist.Machine Progress SolverError where
  take? := Progress.take?
  process n s :=
    if limits.timeoutMs = 0 then .error (.timeout 0 limits.timeoutMs)
    else
      let s' := process p n s
      if limits.maxFindings.toNat < earlier + s'.events.length then
        .error (.maxFindings limits.maxFindings)
      else .ok s'

/-- Turns enough for every solve to settle.  A node is queued at the start, when it may be
    entered with more or when a node it calls may be left with more. -/
def turns (p : Problem) : Nat :=
  let g := p.graph.graph
  let entries := g.entrypoints.length
  let nodes := entries + g.nodes.length + 2 * g.edges.length
  let states := 1 + 2 * p.protocol.transitions.length
  entries + nodes * states + g.edges.length * nodes * states + 1

/-- Solves one object: the monitor, and its events in the order of their discovery. -/
def solveObject (limits : SolverLimits) (monitor : Monitor) (earlier : Nat) (p : Problem) :
    Monitor × Except SolverError (List Event) :=
  match (machine limits earlier p).run (turns p) monitor (start p) with
  | (m, .settled s) => (m, .ok s.events.reverse)
  | (m, .cancelled reason _) => (m, .error (.cancelled reason))
  | (m, .failed e) => (m, .error e)
  | (m, .unfinished _) => (m, .error .unfinished)

/-- Solves objects one after the other. -/
def solveAll (limits : SolverLimits) (g : BuiltGraph) (p : Protocol) :
    List Instance → Monitor → Solution → Monitor × Except SolverError Solution
  | [], monitor, s => (monitor, .ok s)
  | i :: is, monitor, s =>
    match solveObject limits monitor s.events.length ⟨g, p, i⟩ with
    | (monitor, .error e) => (monitor, .error e)
    | (monitor, .ok events) =>
      let states := OrdSet.ofList (p.initial :: events.map Event.target)
      solveAll limits g p is monitor
        { s with tracked := s.tracked ++ [⟨i, states⟩], events := s.events ++ events }

/-- The objects of a type and its subtypes that occur in a graph. -/
def objectsOf (g : BuiltGraph) (h : Hierarchy) (tracked : TypeName) : List Instance :=
  g.pointsTo.instances.toList.filter fun i => h.isSubtype i.type.name tracked

/-- Follows every object of the tracked type through the protocol. -/
def solve (limits : SolverLimits) (g : BuiltGraph) (h : Hierarchy) (p : Protocol)
    (tracked : TypeName) (monitor : Monitor) : Monitor × Except SolverError Solution :=
  match p.error? with
  | some e => (monitor, .error (.invalidProtocol e))
  | none =>
    if h.contains tracked = false then (monitor, .error (.unknownType tracked h.project))
    else solveAll limits g p (objectsOf g h tracked) monitor ⟨p.name, [], []⟩

end Typestate
end StreamVerdict
