/-
  Building a call graph together with its points-to sets.

  Entry points are seeded with objects from outside of the program.  Then nodes are worked
  through until nothing changes: processing a node copies objects along merges, adds the
  objects it allocates, and follows its calls, which may create nodes, pass objects into the
  parameters of a called node and bring returned objects back.  A node whose own sets grew is
  queued again together with its callers, a called node when it is new or its parameters
  grew.
-/
import StreamVerdict.Body.Store
import StreamVerdict.CallGraph.Built
import StreamVerdict.Data.Worklist
import StreamVerdict.Hierarchy.Dispatch

namespace StreamVerdict

/-- Why a call graph could not be built. -/
inductive CallGraphError where
  | cancelled (reason : String)
  | noEntrypoints
  | missingEntrypointBody (method : MethodRef)
  | body (e : BodyError)
  /-- The work has no end.  With the bodies of a finite store it always has one. -/
  | unfinished
deriving DecidableEq

namespace CallGraphError

def message : CallGraphError → String
  | cancelled reason => "Call graph construction cancelled: " ++ reason
  | noEntrypoints => "No entry points supplied"
  | missingEntrypointBody m => "Entry point " ++ m.signature ++ " has no body"
  | body e => e.message
  | unfinished => "Call graph construction did not settle"

def label : CallGraphError → String
  | cancelled _ => "Cancelled"
  | noEntrypoints => "NoEntrypoints"
  | missingEntrypointBody _ => "MissingEntrypointBody"
  | body _ => "Body"
  | unfinished => "Unfinished"

instance : Explained CallGraphError := ⟨label, message⟩

def toAnalysisError (e : CallGraphError) : AnalysisError :=
  match e with
  | cancelled _ => AnalysisError.ofCause .cancelled e.message
  | _ => AnalysisError.ofCause .callGraph e.message

end CallGraphError

namespace Construction

/-- What a construction works from. -/
structure Plan where
  hierarchy : Hierarchy
  provider : BodyProvider
  /-- How many calls a call string keeps. -/
  depth : Nat

/-- How far a construction has come. -/
structure Progress where
  graph : CallGraph
  pointsTo : PointsTo
  /-- The bodies that the provider gave out. -/
  bodies : List Body
  /-- Nodes to be processed, each once. -/
  queue : List Nat
  /-- The methods that the provider was asked for, newest first. -/
  requests : List MethodRef
deriving DecidableEq

/-- Why a construction had to stop, and what the provider was asked for until then. -/
structure Interruption where
  error : CallGraphError
  requests : List MethodRef

abbrev Attempt (α : Type) := Except Interruption α

namespace Progress

def start : Progress := ⟨CallGraph.empty, PointsTo.empty, [], [], []⟩

def enqueue (s : Progress) (n : Nat) : Progress := { s with queue := Worklist.enqueue s.queue n }

def enqueueAll (s : Progress) (ns : List Nat) : Progress :=
  { s with queue := Worklist.enqueueAll s.queue ns }

/-- Adds objects to one set, and tells whether it grew. -/
def flow (s : Progress) (n : Nat) (v : ValueNumber) (is : List Instance) : Progress × Bool :=
  ({ s with pointsTo := s.pointsTo.insertAll n v is }, s.pointsTo.lacks n v is)

/-- The next node to process. -/
def take? (s : Progress) : Option (Nat × Progress) :=
  match s.queue with
  | [] => none
  | n :: queue => some (n, { s with queue })

end Progress

/-- The body of a method.  The provider is asked unless it gave the body before. -/
def fetch (p : Plan) (m : MethodRef) (s : Progress) : Attempt (Option Body × Progress) :=
  match p.provider.request m with
  | .error e => .error ⟨.body e, m :: s.requests⟩
  | .ok none => .ok (none, { s with requests := m :: s.requests })
  | .ok (some b) =>
    if b ∈ s.bodies then .ok (some b, s)
    else .ok (some b, { s with requests := m :: s.requests, bodies := b :: s.bodies })

/-! ### Calls -/

/-- The methods that a call may run, each with the receiver it is run on.  A dispatching call
    runs a method for each receiver; any other call runs one method, for each receiver if
    there are receivers and else without. -/
def targets (p : Plan) (pts : PointsTo) (n : Nat) (args : List ValueNumber) (site : CallSite) :
    List (MethodRef × Option Instance) :=
  let receivers :=
    if site.kind.isStatic then []
    else match args.head? with
      | none => []
      | some v => (pts.get n v).toList
  if site.kind.isDispatch then
    receivers.filterMap fun r =>
      (p.hierarchy.dispatch? r.type.name site.declaredTarget).map fun m => (m, some r)
  else
    let target := match p.hierarchy.resolve? site.declaredTarget with
      | some d => d.method
      | none => site.declaredTarget
    if receivers.isEmpty then [(target, none)] else receivers.map fun r => (target, some r)

/-- What a call passes to the parameter at position `i`: the receiver to the first parameter
    of an instance method, else what the argument at that position may hold. -/
def passed (pts : PointsTo) (caller : Nat) (args : List ValueNumber) (receiver : Option Instance)
    (isStatic : Bool) (i : Nat) : List Instance :=
  let fromArgument := match args[i]? with
    | some v => (pts.get caller v).toList
    | none => []
  match receiver with
  | some r => if i = 0 ∧ isStatic = false then [r] else fromArgument
  | none => fromArgument

/-- Passes objects into the parameters of a called node, and tells whether any of them grew. -/
def bindParams (s : Progress) (caller callee : Nat) (args : List ValueNumber)
    (receiver : Option Instance) (b : Body) : Progress × Bool :=
  b.params.zipIdx.foldl
    (fun acc param =>
      let (s', grew) :=
        acc.1.flow callee param.1 (passed acc.1.pointsTo caller args receiver b.isStatic param.2)
      (s', acc.2 || grew))
    (s, false)

/-- Follows a call from node `n` to one target, and tells whether the result of the call grew
    (or `changed` was true before). -/
def follow (p : Plan) (n : Nat) (x : Node) (result : Option ValueNumber) (args : List ValueNumber)
    (site : CallSite) (acc : Progress × Bool) (target : MethodRef × Option Instance) :
    Attempt (Progress × Bool) := do
  let (s, changed) := acc
  let called : Node :=
    ⟨target.1, ⟨x.context.callString.push ⟨site, x.method⟩ p.depth, target.2⟩⟩
  let isNew := (s.graph.find? called).isNone
  let (callee, graph) := s.graph.insertNode called
  let s := { s with graph := graph.insertEdge ⟨n, site, callee⟩ }
  let (body?, s) ← fetch p target.1 s
  match body? with
  | none => return (s, changed)
  | some b =>
    let (s, grew) := bindParams s n callee args target.2 b
    let s := if isNew || grew then s.enqueue callee else s
    match result with
    | none => return (s, changed)
    | some v =>
      let (s, grew) := s.flow n v (s.pointsTo.union callee b.returnValues)
      return (s, changed || grew)

/-! ### Nodes -/

/-- Copies objects along one merge. -/
def mergePhi (n : Nat) (acc : Progress × Bool) (phi : Phi) : Progress × Bool :=
  let (s, grew) := acc.1.flow n phi.result (acc.1.pointsTo.union n phi.uses)
  (s, acc.2 || grew)

/-- Carries out one instruction. -/
def execute (p : Plan) (n : Nat) (x : Node) (acc : Progress × Bool) :
    Instruction → Attempt (Progress × Bool)
  | .new _ v site _ =>
    let (s, grew) := acc.1.flow n v [Instance.allocated x.method site x.context.callString]
    return (s, acc.2 || grew)
  | .invoke _ result args site _ =>
    (targets p acc.1.pointsTo n args site).foldlM (follow p n x result args site) acc
  | .ret _ _ _ => return acc

/-- Processes a node. -/
def process (p : Plan) (n : Nat) (s : Progress) : Attempt Progress := do
  match s.graph.node? n with
  | none => return s
  | some x =>
    let (body?, s) ← fetch p x.method s
    match body? with
    | none => return s
    | some b =>
      let merged := b.phis.foldl (mergePhi n) (s, false)
      let (s, changed) ← b.instructions.foldlM (execute p n x) merged
      if changed then
        return (s.enqueue n).enqueueAll (s.graph.callers n)
      else return s

/-! ### Entry points -/

/-- Objects from outside of the program for a declared type: one of each concrete class. -/
def seeds (h : Hierarchy) (t : TypeName) : List Instance :=
  if t.isClass then (h.concreteSubtypes t).map fun c => Instance.synthetic c.typeRef else []

/-- The receivers on which an entry point is run. -/
def entryReceivers (h : Hierarchy) (entry : MethodRef) (isStatic : Bool) : List (Option Instance) :=
  if isStatic then [none]
  else
    match seeds h entry.declaringClass.name with
    | [] => [none]
    | is => is.map some

/-- What an entry point's parameter at position `i` may hold: the receiver, or an object of
    each concrete class of its declared type. -/
def entryArgument (h : Hierarchy) (entry : MethodRef) (receiver : Option Instance) (isStatic : Bool)
    (i : Nat) : List Instance :=
  let declared := if isStatic then entry.parameterTypes
    else entry.declaringClass.name :: entry.parameterTypes
  if i = 0 ∧ isStatic = false then receiver.toList
  else
    match declared[i]? with
    | some t => seeds h t
    | none => []

/-- Adds the node of an entry point for one receiver. -/
def seedNode (p : Plan) (site : CallSite) (b : Body) (s : Progress) (receiver : Option Instance) :
    Progress :=
  let callString := CallString.empty.push ⟨site, CallGraph.rootMethod⟩ p.depth
  let (n, graph) := s.graph.insertNode ⟨site.declaredTarget, ⟨callString, receiver⟩⟩
  let graph := (graph.insertEntrypoint n).insertEdge ⟨CallGraph.root, site, n⟩
  let pointsTo := b.params.zipIdx.foldl
    (fun pts param =>
      pts.insertAll n param.1
        (entryArgument p.hierarchy site.declaredTarget receiver b.isStatic param.2))
    s.pointsTo
  { s with graph, pointsTo }.enqueue n

/-- Adds the nodes of the entry point at position `i`. -/
def seedEntry (p : Plan) (s : Progress) (entry : MethodRef × Nat) : Attempt Progress := do
  let (body?, s) ← fetch p entry.1 s
  match body? with
  | none => .error ⟨.missingEntrypointBody entry.1, s.requests⟩
  | some b =>
    let kind : Invocation := if b.isStatic then .static else .virtual
    let site : CallSite := ⟨entry.2, entry.1, kind⟩
    return (entryReceivers p.hierarchy entry.1 b.isStatic).foldl (seedNode p site b) s

/-! ### The whole construction -/

/-- The construction as work on a queue of nodes. -/
def machine (p : Plan) : Worklist.Machine Progress Interruption where
  take? := Progress.take?
  process := process p

/-- What came of a construction: the graph or an error, the monitor, and the methods that the
    provider was asked for, oldest first. -/
structure Outcome where
  result : Except CallGraphError BuiltGraph
  monitor : Monitor
  requests : List MethodRef

/-- What the end of the work means. -/
def conclude (p : Plan) : Monitor × Worklist.Ending Progress Interruption → Outcome
  | (monitor, .settled s) =>
    ⟨.ok ⟨s.graph, s.pointsTo, s.bodies, p.depth⟩, monitor, s.requests.reverse⟩
  | (monitor, .cancelled reason s) => ⟨.error (.cancelled reason), monitor, s.requests.reverse⟩
  | (monitor, .failed i) => ⟨.error i.error, monitor, i.requests.reverse⟩
  | (monitor, .unfinished s) => ⟨.error .unfinished, monitor, s.requests.reverse⟩

/-- Builds the call graph of the entry points. -/
def build (p : Plan) (entrypoints : List MethodRef) (monitor : Monitor) : Outcome :=
  if entrypoints.isEmpty then ⟨.error .noEntrypoints, monitor, []⟩
  else
    match entrypoints.zipIdx.foldlM (seedEntry p) Progress.start with
    | .error i => ⟨.error i.error, monitor, i.requests.reverse⟩
    | .ok s => conclude p ((machine p).runToEnd monitor s)

end Construction
end StreamVerdict
