/-
  Call graphs.

  A node is a method in a context, known by its position; an edge leads from a call in the
  calling node to the called node.  Nodes are listed in the order of their creation and edges
  newest first, which is also the order in which the callers and the targets of a node are
  listed.  The position of a node is looked up in a table beside the list of nodes.  A graph
  carries the proof that the two agree and that no node, no edge and no entry point is there
  twice.
-/
import StreamVerdict.CallGraph.Context

namespace StreamVerdict

/-- A method in a context. -/
structure Node where
  method : MethodRef
  context : Context
deriving DecidableEq

/-- A call from one node to another. -/
structure Edge where
  caller : Nat
  site : CallSite
  callee : Nat
deriving DecidableEq

/-- Nodes, edges and entry points. -/
structure CallGraph where
  /-- The nodes in the order of their creation; the root is the first. -/
  nodes : List Node
  /-- The position of each node, newest first. -/
  positions : List (Node × Nat)
  /-- The edges, newest first. -/
  edges : List Edge
  /-- Nodes that the root calls, in the order of their registration. -/
  entrypoints : List Nat
  nodes_nodup : nodes.Nodup
  positions_perm : positions.Perm nodes.zipIdx
  edges_nodup : edges.Nodup
  entrypoints_nodup : entrypoints.Nodup
deriving DecidableEq

namespace CallGraph

/-- The method that stands for the outside of the program. -/
def rootMethod : MethodRef :=
  { declaringClass := ⟨.synthetic, ⟨"LFakeRootClass"⟩⟩
    name := "fakeRootMethod"
    parameterTypes := []
    returnType := TypeName.void }

def rootNode : Node := ⟨rootMethod, Context.everywhere⟩

/-- The position of the root. -/
def root : Nat := 0

/-- The graph of the root alone. -/
def empty : CallGraph where
  nodes := [rootNode]
  positions := [(rootNode, root)]
  edges := []
  entrypoints := []
  nodes_nodup := List.nodup_cons.mpr ⟨List.not_mem_nil, .nil⟩
  positions_perm := .refl _
  edges_nodup := .nil
  entrypoints_nodup := .nil

def node? (g : CallGraph) (n : Nat) : Option Node := g.nodes[n]?

/-- The position of a node. -/
def find? (g : CallGraph) (x : Node) : Option Nat := g.positions.lookup x

/-- A node that is not in the table of positions is no node of the graph. -/
theorem notMem_nodes_of_find? {g : CallGraph} {x : Node} (h : g.find? x = none) :
    x ∉ g.nodes := by
  intro hx
  obtain ⟨n, hn, hget⟩ := List.getElem_of_mem hx
  have hmem : (x, n) ∈ g.positions := by
    rw [g.positions_perm.mem_iff, List.mem_zipIdx_iff_getElem?, List.getElem?_eq_getElem hn, hget]
  rw [find?, List.lookup_eq_none_iff] at h
  exact absurd rfl (bne_iff_ne.mp (h (x, n) hmem))

/-- Adds a node behind the others, and its position to the table. -/
def pushNode (g : CallGraph) (x : Node) (h : g.find? x = none) : CallGraph where
  nodes := g.nodes ++ [x]
  positions := (x, g.nodes.length) :: g.positions
  edges := g.edges
  entrypoints := g.entrypoints
  nodes_nodup := by
    have hlast : (x :: g.nodes).Nodup :=
      List.nodup_cons.mpr ⟨notMem_nodes_of_find? h, g.nodes_nodup⟩
    exact (List.perm_append_singleton x g.nodes).nodup_iff.mpr hlast
  positions_perm := by
    rw [List.zipIdx_append, Nat.zero_add]
    exact (g.positions_perm.cons _).trans (List.perm_append_singleton _ _).symm
  edges_nodup := g.edges_nodup
  entrypoints_nodup := g.entrypoints_nodup

/-- The position of a node, which is added unless it is there. -/
def insertNode (g : CallGraph) (x : Node) : Nat × CallGraph :=
  match h : g.find? x with
  | some n => (n, g)
  | none => (g.nodes.length, g.pushNode x h)

/-- Adds an edge unless it is there. -/
def insertEdge (g : CallGraph) (e : Edge) : CallGraph :=
  if h : e ∈ g.edges then g
  else { g with edges := e :: g.edges, edges_nodup := List.nodup_cons.mpr ⟨h, g.edges_nodup⟩ }

/-- Registers an entry point unless it is one. -/
def insertEntrypoint (g : CallGraph) (n : Nat) : CallGraph :=
  if h : n ∈ g.entrypoints then g
  else
    { g with
      entrypoints := g.entrypoints ++ [n]
      entrypoints_nodup := by
        have hlast : (n :: g.entrypoints).Nodup := List.nodup_cons.mpr ⟨h, g.entrypoints_nodup⟩
        exact (List.perm_append_singleton n g.entrypoints).nodup_iff.mpr hlast }

/-- The nodes of a method in any context. -/
def nodesOf (g : CallGraph) (m : MethodRef) : List Nat :=
  (List.range g.nodes.length).filter fun n => (g.node? n).any fun x => x.method = m

/-- The calling node of each edge into `n`, newest edge first. -/
def callers (g : CallGraph) (n : Nat) : List Nat :=
  (g.edges.filter fun e => e.callee = n).map Edge.caller

/-- The nodes that `n` calls at `site`, newest edge first. -/
def targets (g : CallGraph) (n : Nat) (site : CallSite) : List Nat :=
  (g.edges.filter fun e => e.caller = n ∧ e.site = site).map Edge.callee

end CallGraph
end StreamVerdict
