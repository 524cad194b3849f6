/-
  Call graphs that are put together by any sequence of operations.

  Nodes, edges and entry points are added in any order.  Edges and entry points are given by
  positions that the graph gave out before: that of the root, and those with which the additions of
  nodes were answered.  Whatever the sequence, positions and nodes correspond one to one, and
  nothing is listed twice.
-/
import Mathlib.Data.List.Nodup
import Mathlib.Data.Set.Function
import StreamVerdict.Proofs.CallGraph.Graph

namespace StreamVerdict
namespace CallGraph

/-! ### What one operation keeps -/

section Operations

variable {g : CallGraph} {x y : Node} {n : Nat}

theorem mem_nodes_iff : x ∈ g.nodes ↔ ∃ n, g.node? n = some x := List.mem_iff_getElem?

theorem node?_isSome_iff : (∃ x, g.node? n = some x) ↔ n < g.nodes.length := by
  constructor
  · rintro ⟨x, hx⟩
    exact node?_lt hx
  · intro hn
    exact ⟨_, List.getElem?_eq_getElem hn⟩

theorem mem_nodes_insertNode : y ∈ (g.insertNode x).2.nodes ↔ y = x ∨ y ∈ g.nodes := by
  rw [mem_nodes_iff, mem_nodes_iff]
  constructor
  · rintro ⟨n, hn⟩
    rcases node?_insertNode hn with hold | ⟨-, -, rfl⟩
    · exact Or.inr ⟨n, hold⟩
    · exact Or.inl rfl
  · rintro (rfl | ⟨n, hn⟩)
    · exact ⟨_, node?_insertNode_self g y⟩
    · exact ⟨n, node?_insertNode_of_node? x hn⟩

theorem length_le_of_le {g h : CallGraph} (hgh : g ≤ h) : g.nodes.length ≤ h.nodes.length := by
  by_contra hlt
  -- The first position behind the nodes of `h` would be that of a node of `g`, and so of `h`.
  obtain ⟨x, hx⟩ := node?_isSome_iff.mpr (Nat.lt_of_not_le hlt)
  exact Nat.lt_irrefl _ (node?_lt (hgh.nodes _ x hx))

theorem nodes_insertEdge (g : CallGraph) (e : Edge) : (g.insertEdge e).nodes = g.nodes := by
  rw [insertEdge]
  split <;> rfl

theorem nodes_insertEntrypoint (g : CallGraph) (n : Nat) :
    (g.insertEntrypoint n).nodes = g.nodes := by
  rw [insertEntrypoint]
  split <;> rfl

/-- The edges out of one call are told apart by where they lead. -/
theorem nodup_targets (g : CallGraph) (n : Nat) (site : CallSite) :
    (g.targets n site).Nodup := by
  refine List.Nodup.map_on ?_ (g.edges_nodup.filter _)
  intro e he e' he' hcallee
  obtain ⟨hcaller, hsite⟩ : e.caller = n ∧ e.site = site := by
    simpa using (List.mem_filter.mp he).2
  obtain ⟨hcaller', hsite'⟩ : e'.caller = n ∧ e'.site = site := by
    simpa using (List.mem_filter.mp he').2
  cases e
  cases e'
  rw [Edge.mk.injEq]
  exact ⟨hcaller.trans hcaller'.symm, hsite.trans hsite'.symm, hcallee⟩

end Operations

/-! ### Sequences of operations -/

/-- An operation on a call graph. -/
inductive Operation where
  /-- The node is found or else added, and its position is given out. -/
  | node (x : Node)
  | edge (e : Edge)
  | entrypoint (n : Nat)
deriving DecidableEq

/-- A call graph, and the positions that it gave out. -/
structure Growing where
  graph : CallGraph
  issued : List Nat
deriving DecidableEq

namespace Growing

variable {s s' : Growing} {op : Operation} {ops : List Operation}

/-- The graph of the root alone, whose position is known. -/
def start : Growing := ⟨empty, [root]⟩

/-- Carries out an operation, if the positions that it is about were given out before. -/
def step? (s : Growing) : Operation → Option Growing
  | .node x => some ⟨(s.graph.insertNode x).2, (s.graph.insertNode x).1 :: s.issued⟩
  | .edge e =>
    if e.caller ∈ s.issued ∧ e.callee ∈ s.issued then
      some { s with graph := s.graph.insertEdge e }
    else none
  | .entrypoint n =>
    if n ∈ s.issued then some { s with graph := s.graph.insertEntrypoint n } else none

/-- Carries out operations one after the other. -/
def run? (s : Growing) (ops : List Operation) : Option Growing := ops.foldlM step? s

theorem run?_cons_eq_some : s.run? (op :: ops) = some s' ↔
    ∃ next, s.step? op = some next ∧ next.run? ops = some s' := by
  rw [run?, List.foldlM_cons]
  exact Option.bind_eq_some_iff

/-- What a step can do. -/
theorem step?_cases (h : s.step? op = some s') :
    (∃ x, op = .node x ∧
      s' = ⟨(s.graph.insertNode x).2, (s.graph.insertNode x).1 :: s.issued⟩) ∨
    (∃ e, op = .edge e ∧ e.caller ∈ s.issued ∧ e.callee ∈ s.issued ∧
      s' = { s with graph := s.graph.insertEdge e }) ∨
    ∃ n, op = .entrypoint n ∧ n ∈ s.issued ∧
      s' = { s with graph := s.graph.insertEntrypoint n } := by
  cases op with
  | node x => exact .inl ⟨x, rfl, (Option.some.inj h).symm⟩
  | edge e =>
      rw [step?] at h
      split at h
      case isTrue hissued =>
        exact .inr (.inl ⟨e, rfl, hissued.1, hissued.2, (Option.some.inj h).symm⟩)
      case isFalse => cases h
  | entrypoint n =>
      rw [step?] at h
      split at h
      case isTrue hissued => exact .inr (.inr ⟨n, rfl, hissued, (Option.some.inj h).symm⟩)
      case isFalse => cases h

/-- What every step keeps, a run keeps. -/
theorem run_keeps {P : Growing → Prop}
    (hstep : ∀ t op t', t.step? op = some t' → P t → P t') (h : s.run? ops = some s')
    (hs : P s) : P s' := by
  induction ops generalizing s with
  | nil =>
      cases h
      exact hs
  | cons op ops ih =>
      obtain ⟨next, hnext, hrest⟩ := run?_cons_eq_some.mp h
      exact ih hrest (hstep s op next hnext hs)

/-- What was given out, what edges connect and what entry points are is nodes. -/
structure Represented (s : Growing) : Prop where
  issued_lt : ∀ n ∈ s.issued, n < s.graph.nodes.length
  edges_lt : ∀ e ∈ s.graph.edges,
    e.caller < s.graph.nodes.length ∧ e.callee < s.graph.nodes.length
  entrypoints_lt : ∀ n ∈ s.graph.entrypoints, n < s.graph.nodes.length

theorem represented_start : start.Represented where
  issued_lt := by
    intro n hn
    rw [List.mem_singleton.mp hn]
    exact Nat.one_pos
  edges_lt := by
    intro e he
    cases he
  entrypoints_lt := by
    intro n hn
    cases hn

namespace Represented

theorem node (hs : s.Represented) (x : Node) :
    Represented ⟨(s.graph.insertNode x).2, (s.graph.insertNode x).1 :: s.issued⟩ := by
  have hlength := length_le_of_le (le_insertNode s.graph x)
  refine ⟨?_, ?_, ?_⟩
  · intro n hn
    rcases List.mem_cons.mp hn with rfl | hold
    · exact node?_lt (node?_insertNode_self s.graph x)
    · exact Nat.lt_of_lt_of_le (hs.issued_lt n hold) hlength
  · intro e he
    rw [insertNode_edges] at he
    obtain ⟨hcaller, hcallee⟩ := hs.edges_lt e he
    exact ⟨Nat.lt_of_lt_of_le hcaller hlength, Nat.lt_of_lt_of_le hcallee hlength⟩
  · intro n hn
    rw [insertNode_entrypoints] at hn
    exact Nat.lt_of_lt_of_le (hs.entrypoints_lt n hn) hlength

theorem edge (hs : s.Represented) {e : Edge} (hcaller : e.caller ∈ s.issued)
    (hcallee : e.callee ∈ s.issued) : Represented { s with graph := s.graph.insertEdge e } := by
  refine ⟨?_, ?_, ?_⟩
  · rw [nodes_insertEdge]
    exact hs.issued_lt
  · rw [nodes_insertEdge]
    intro e' he'
    rcases mem_edges_insertEdge.mp he' with rfl | hold
    · exact ⟨hs.issued_lt _ hcaller, hs.issued_lt _ hcallee⟩
    · exact hs.edges_lt e' hold
  · rw [nodes_insertEdge, insertEdge_entrypoints]
    exact hs.entrypoints_lt

theorem entrypoint (hs : s.Represented) {n : Nat} (hn : n ∈ s.issued) :
    Represented { s with graph := s.graph.insertEntrypoint n } := by
  refine ⟨?_, ?_, ?_⟩
  · rw [nodes_insertEntrypoint]
    exact hs.issued_lt
  · rw [nodes_insertEntrypoint, insertEntrypoint_edges]
    exact hs.edges_lt
  · rw [nodes_insertEntrypoint]
    intro m hm
    rcases mem_entrypoints_insertEntrypoint.mp hm with rfl | hold
    · exact hs.issued_lt m hn
    · exact hs.entrypoints_lt m hold

theorem step (hs : s.Represented) (h : s.step? op = some s') : s'.Represented := by
  obtain ⟨x, rfl, rfl⟩ | ⟨e, rfl, hcaller, hcallee, rfl⟩ | ⟨n, rfl, hn, rfl⟩ := step?_cases h
  · exact hs.node x
  · exact hs.edge hcaller hcallee
  · exact hs.entrypoint hn

theorem run (hs : s.Represented) (h : s.run? ops = some s') : s'.Represented :=
  run_keeps (fun _ _ _ hstep ht => ht.step hstep) h hs

end Represented

/-- An operation takes nothing away, and keeps every node at its position. -/
theorem le_step (h : s.step? op = some s') : s.graph ≤ s'.graph := by
  obtain ⟨x, rfl, rfl⟩ | ⟨e, rfl, -, -, rfl⟩ | ⟨n, rfl, -, rfl⟩ := step?_cases h
  · exact le_insertNode s.graph x
  · exact le_insertEdge s.graph e
  · exact le_insertEntrypoint s.graph n

theorem le_run (h : s.run? ops = some s') : s.graph ≤ s'.graph := by
  have hkeeps : ∀ (t : Growing) (op : Operation) (t' : Growing), t.step? op = some t' →
      s.graph ≤ t.graph → s.graph ≤ t'.graph := by
    intro t op t' hstep ht
    exact le_trans ht (le_step hstep)
  exact run_keeps hkeeps h (le_refl s.graph)

/-- The nodes are those that were there and the one that was asked for. -/
theorem mem_nodes_step (h : s.step? op = some s') {x : Node} :
    x ∈ s'.graph.nodes ↔ x ∈ s.graph.nodes ∨ op = .node x := by
  obtain ⟨y, rfl, rfl⟩ | ⟨e, rfl, -, -, rfl⟩ | ⟨n, rfl, -, rfl⟩ := step?_cases h
  · rw [mem_nodes_insertNode, or_comm, Operation.node.injEq, eq_comm]
  · simp [nodes_insertEdge]
  · simp [nodes_insertEntrypoint]

theorem mem_nodes_run (h : s.run? ops = some s') {x : Node} :
    x ∈ s'.graph.nodes ↔ x ∈ s.graph.nodes ∨ .node x ∈ ops := by
  induction ops generalizing s with
  | nil =>
      cases h
      simp
  | cons op ops ih =>
      obtain ⟨next, hnext, hrest⟩ := run?_cons_eq_some.mp h
      rw [ih hrest, mem_nodes_step hnext, List.mem_cons, or_assoc, eq_comm]

/-- The representation of a call graph after any operations.  Positions correspond one to one to the
    nodes that were asked for, the root among them; a node is found at the position where it
    stands, and nowhere else; operations that follow leave every node at its position.  Edges and
    entry points are about nodes, no two edges agree in caller, site and callee, no entry point is
    registered twice, and the targets of a call are listed once each. -/
theorem run_represents (ops : List Operation) (s : Growing) (h : start.run? ops = some s) :
    Set.BijOn s.graph.node? {n | n < s.graph.nodes.length}
      (some '' {x | x = rootNode ∨ .node x ∈ ops}) ∧
    (∀ x n, s.graph.find? x = some n ↔ s.graph.node? n = some x) ∧
    (∀ more s' n x, s.run? more = some s' → s.graph.node? n = some x →
      s'.graph.node? n = some x) ∧
    (∀ e ∈ s.graph.edges, e.caller < s.graph.nodes.length ∧ e.callee < s.graph.nodes.length) ∧
    (∀ n ∈ s.graph.entrypoints, n < s.graph.nodes.length) ∧
    s.graph.edges.Nodup ∧ s.graph.entrypoints.Nodup ∧
    ∀ n site, (s.graph.targets n site).Nodup := by
  have hs := represented_start.run h
  have hnodes : ∀ x, x ∈ s.graph.nodes ↔ x = rootNode ∨ .node x ∈ ops := by
    intro x
    rw [mem_nodes_run h]
    exact or_congr_left List.mem_singleton
  refine ⟨⟨?_, ?_, ?_⟩, fun x n => find?_eq_some_iff, ?_, hs.edges_lt, hs.entrypoints_lt,
    s.graph.edges_nodup, s.graph.entrypoints_nodup, nodup_targets s.graph⟩
  · intro n hn
    obtain ⟨x, hx⟩ := node?_isSome_iff.mpr hn
    exact ⟨x, (hnodes x).mp (mem_nodes_iff.mpr ⟨n, hx⟩), hx.symm⟩
  · intro n hn m _ hnm
    obtain ⟨x, hx⟩ := node?_isSome_iff.mpr hn
    exact node?_inj hx (hnm ▸ hx)
  · rintro _ ⟨x, hx, rfl⟩
    obtain ⟨n, hn⟩ := mem_nodes_iff.mp ((hnodes x).mpr hx)
    exact ⟨n, node?_lt hn, hn⟩
  · intro more s' n x hmore hn
    exact (le_run hmore).nodes n x hn

/-! ### Two errands -/

namespace Errands

def errand (name : String) : MethodRef :=
  ⟨⟨.application, TypeName.ofBinary "shop.Errand"⟩, name, [], TypeName.void⟩

def fetch : Node := ⟨errand "fetch", Context.everywhere⟩

def carry : Node := ⟨errand "carry", Context.everywhere⟩

def call : CallSite := ⟨0, errand "carry", .static⟩

/-- A node, an edge and an entry point are added twice. -/
def errands : List Operation :=
  [.node fetch, .entrypoint 1, .edge ⟨root, call, 1⟩, .node carry, .node fetch,
    .edge ⟨1, call, 2⟩, .edge ⟨1, call, 2⟩, .edge ⟨1, call, 1⟩, .entrypoint 1]

def grown : Growing where
  graph :=
    { nodes := [rootNode, fetch, carry]
      positions := [(carry, 2), (fetch, 1), (rootNode, root)]
      edges := [⟨1, call, 1⟩, ⟨1, call, 2⟩, ⟨root, call, 1⟩]
      entrypoints := [1]
      nodes_nodup := by decide
      positions_perm := by decide
      edges_nodup := by decide
      entrypoints_nodup := by decide }
  issued := [1, 2, 1, root]

theorem run_represents_errands :
    start.run? errands = some grown ∧
    Set.InjOn grown.graph.node? {n | n < 3} ∧
    grown.graph.find? carry = some 2 ∧
    (∀ more s', grown.run? more = some s' → s'.graph.node? 2 = some carry) ∧
    (grown.graph.targets 1 call).Nodup := by
  have hrun : start.run? errands = some grown := by decide
  obtain ⟨hbij, hfind, hkept, -, -, -, -, htargets⟩ := run_represents errands grown hrun
  have hcarry : grown.graph.node? 2 = some carry := rfl
  exact ⟨hrun, hbij.injOn, (hfind carry 2).mpr hcarry,
    fun more s' hmore => hkept more s' 2 carry hmore hcarry, htargets 1 call⟩

end Errands

end Growing
end CallGraph
end StreamVerdict
