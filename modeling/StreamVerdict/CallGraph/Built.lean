/-
  A finished call graph: the graph, the points-to sets and the bodies that were used.
-/
import StreamVerdict.Body.Basic
import StreamVerdict.CallGraph.Graph
import StreamVerdict.CallGraph.PointsTo

namespace StreamVerdict

/-- A call graph with what is known about its values. -/
structure BuiltGraph where
  graph : CallGraph
  pointsTo : PointsTo
  bodies : List Body
  /-- How many calls a call string keeps. -/
  depth : Nat
deriving DecidableEq

namespace BuiltGraph

/-- A body in place of an earlier one of the same method. -/
def insertBody (g : BuiltGraph) (b : Body) : BuiltGraph :=
  { g with bodies := b :: g.bodies.filter fun old => old.method ≠ b.method }

/-- The body of a node's method. -/
def body? (g : BuiltGraph) (n : Nat) : Option Body :=
  (g.graph.node? n).bind fun x => g.bodies.find? fun b => b.method = x.method

/-- The nodes in which an object was allocated: those of the allocating method whose call
    string is the one of the object. -/
def creationNodes (g : BuiltGraph) (i : Instance) : List Nat :=
  match i.newSite? with
  | none => []
  | some (m, _) =>
    (List.range g.graph.nodes.length).filter fun n =>
      (g.graph.node? n).any fun x => x.method = m ∧ x.context.callString = i.heapContext

end BuiltGraph
end StreamVerdict
