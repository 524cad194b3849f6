/-
  The call graphs of a project, kept for reuse.

  A graph is kept under its set of entry points and its depth.  Only a finished graph is kept;
  a request that fails leaves everything as it was.
-/
import StreamVerdict.CallGraph.Construction

namespace StreamVerdict

/-- What a call graph is kept under: the entry points as a set, and the depth. -/
structure GraphKey where
  entrypoints : OrdSet MethodRef
  depth : Nat
deriving DecidableEq

/-- The call graphs of a project. -/
structure GraphLibrary where
  project : ProjectId
  graphs : List (GraphKey × BuiltGraph)
  /-- How many graphs were built so far. -/
  builds : Nat
deriving DecidableEq

namespace GraphLibrary

def empty (p : ProjectId) : GraphLibrary := ⟨p, [], 0⟩

def key (entrypoints : List MethodRef) (depth : Nat) : GraphKey :=
  ⟨OrdSet.ofList entrypoints, depth⟩

/-- What constructions come to, whatever they work from: for entry points, under a monitor. -/
abbrev Source := List MethodRef → Monitor → Construction.Outcome

/-- The graph of a set of entry points at a depth: one that was kept, or else a new one from the
    source.  Without a new construction nobody is asked for anything. -/
def requestFrom (l : GraphLibrary) (source : Source) (entrypoints : List MethodRef) (depth : Nat)
    (monitor : Monitor) : Construction.Outcome × GraphLibrary :=
  let k := key entrypoints depth
  match l.graphs.lookup k with
  | some g => (⟨.ok g, monitor, []⟩, l)
  | none =>
    let outcome := source k.entrypoints.toList monitor
    match outcome.result with
    | .error _ => (outcome, l)
    | .ok g => (outcome, { l with graphs := (k, g) :: l.graphs, builds := l.builds + 1 })

/-- The graph of a set of entry points, constructed by a plan if none was kept. -/
def request (l : GraphLibrary) (p : Construction.Plan) (entrypoints : List MethodRef)
    (monitor : Monitor) : Construction.Outcome × GraphLibrary :=
  l.requestFrom (Construction.build p) entrypoints p.depth monitor

end GraphLibrary
end StreamVerdict
