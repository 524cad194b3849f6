/-
  What the operations on a call graph add.

  The table of positions agrees with the list of nodes.  Nodes keep their positions for ever,
  and an operation adds at most the node, the edge or the entry point it is given.
-/
import StreamVerdict.CallGraph.Graph
import StreamVerdict.Proofs.Data.OrdSet

namespace StreamVerdict
namespace CallGraph

/-! ### Nodes -/

/-- The table of positions agrees with the list of nodes. -/
theorem find?_eq_some_iff {g : CallGraph} {x : Node} {n : Nat} :
    g.find? x = some n ↔ g.node? n = some x := by
  have hkeys : (g.positions.map Prod.fst).Nodup := by
    rw [(g.positions_perm.map Prod.fst).nodup_iff, List.zipIdx_map_fst]
    exact g.nodes_nodup
  have hlookup : g.find? x = some n ↔ (x, n) ∈ g.positions :=
    ⟨mem_of_lookup, lookup_of_mem hkeys⟩
  rw [hlookup, g.positions_perm.mem_iff, List.mem_zipIdx_iff_getElem?]
  rfl

/-- No node stands at two positions. -/
theorem node?_inj {g : CallGraph} {n m : Nat} {x : Node} (hn : g.node? n = some x)
    (hm : g.node? m = some x) : n = m := by
  rw [← find?_eq_some_iff] at hn hm
  exact Option.some.inj (hn.symm.trans hm)

theorem node?_lt {g : CallGraph} {n : Nat} {x : Node} (h : g.node? n = some x) :
    n < g.nodes.length :=
  (List.getElem?_eq_some_iff.mp h).1

theorem insertNode_of_find? {g : CallGraph} {x : Node} {n : Nat} (h : g.find? x = some n) :
    g.insertNode x = (n, g) := by
  rw [insertNode]
  split
  · next m hm => rw [Option.some.inj (hm.symm.trans h)]
  · next hnone => cases hnone.symm.trans h

theorem insertNode_of_none {g : CallGraph} {x : Node} (h : g.find? x = none) :
    g.insertNode x = (g.nodes.length, g.pushNode x h) := by
  rw [insertNode]
  split
  · next m hm => cases h.symm.trans hm
  · rfl

/-- The position of a node is that of the node, also when it was just added. -/
theorem node?_insertNode_self (g : CallGraph) (x : Node) :
    (g.insertNode x).2.node? (g.insertNode x).1 = some x := by
  cases hf : g.find? x with
  | none =>
      rw [insertNode_of_none hf]
      show (g.nodes ++ [x])[g.nodes.length]? = some x
      rw [List.getElem?_concat_length]
  | some n =>
      rw [insertNode_of_find? hf]
      exact find?_eq_some_iff.mp hf

theorem node?_insertNode_of_node? {g : CallGraph} {m : Nat} {y : Node} (x : Node)
    (h : g.node? m = some y) : (g.insertNode x).2.node? m = some y := by
  cases hf : g.find? x with
  | none =>
      rw [insertNode_of_none hf]
      show (g.nodes ++ [x])[m]? = some y
      rw [List.getElem?_append_left (node?_lt h)]
      exact h
  | some n =>
      rw [insertNode_of_find? hf]
      exact h

/-- A node of the larger graph was there before, or it is the new one. -/
theorem node?_insertNode {g : CallGraph} {x y : Node} {m : Nat}
    (h : (g.insertNode x).2.node? m = some y) :
    g.node? m = some y ∨ (g.find? x = none ∧ m = (g.insertNode x).1 ∧ y = x) := by
  cases hf : g.find? x with
  | none =>
      rw [insertNode_of_none hf] at h ⊢
      have hlast : (g.nodes ++ [x])[m]? = some y := h
      rw [List.getElem?_append] at hlast
      split at hlast
      · exact Or.inl hlast
      · next hm =>
        obtain ⟨hi, hy⟩ := List.getElem?_eq_some_iff.mp hlast
        rw [List.length_singleton] at hi
        have hm' : m = g.nodes.length := by omega
        subst hm'
        simp only [Nat.sub_self, List.getElem_cons_zero] at hy
        exact Or.inr ⟨rfl, rfl, hy.symm⟩
  | some n =>
      rw [insertNode_of_find? hf] at h
      exact Or.inl h

@[simp] theorem insertNode_edges (g : CallGraph) (x : Node) :
    (g.insertNode x).2.edges = g.edges := by
  rw [insertNode]
  split <;> rfl

@[simp] theorem insertNode_entrypoints (g : CallGraph) (x : Node) :
    (g.insertNode x).2.entrypoints = g.entrypoints := by
  rw [insertNode]
  split <;> rfl

/-! ### Edges and entry points -/

@[simp] theorem node?_insertEdge (g : CallGraph) (e : Edge) (n : Nat) :
    (g.insertEdge e).node? n = g.node? n := by
  rw [insertEdge]
  split <;> rfl

@[simp] theorem insertEdge_entrypoints (g : CallGraph) (e : Edge) :
    (g.insertEdge e).entrypoints = g.entrypoints := by
  rw [insertEdge]
  split <;> rfl

theorem mem_edges_insertEdge {g : CallGraph} {e e' : Edge} :
    e' ∈ (g.insertEdge e).edges ↔ e' = e ∨ e' ∈ g.edges := by
  rw [insertEdge]
  by_cases h : e ∈ g.edges
  · rw [dif_pos h]
    constructor
    · exact Or.inr
    · rintro (rfl | he')
      · exact h
      · exact he'
  · rw [dif_neg h, List.mem_cons]

@[simp] theorem node?_insertEntrypoint (g : CallGraph) (n m : Nat) :
    (g.insertEntrypoint n).node? m = g.node? m := by
  rw [insertEntrypoint]
  split <;> rfl

@[simp] theorem insertEntrypoint_edges (g : CallGraph) (n : Nat) :
    (g.insertEntrypoint n).edges = g.edges := by
  rw [insertEntrypoint]
  split <;> rfl

theorem mem_entrypoints_insertEntrypoint {g : CallGraph} {n m : Nat} :
    m ∈ (g.insertEntrypoint n).entrypoints ↔ m = n ∨ m ∈ g.entrypoints := by
  rw [insertEntrypoint]
  by_cases h : n ∈ g.entrypoints
  · rw [dif_pos h]
    constructor
    · exact Or.inr
    · rintro (rfl | hm)
      · exact h
      · exact hm
  · rw [dif_neg h, List.mem_append, List.mem_singleton, or_comm]

/-- It does not matter whether an edge or an entry point is added first. -/
theorem insertEdge_insertEntrypoint (g : CallGraph) (e : Edge) (n : Nat) :
    (g.insertEntrypoint n).insertEdge e = (g.insertEdge e).insertEntrypoint n := by
  by_cases he : e ∈ g.edges
  · by_cases hn : n ∈ g.entrypoints
    · simp [insertEdge, insertEntrypoint, he, hn]
    · simp [insertEdge, insertEntrypoint, he, hn]
  · by_cases hn : n ∈ g.entrypoints
    · simp [insertEdge, insertEntrypoint, he, hn]
    · simp [insertEdge, insertEntrypoint, he, hn]

theorem mem_callers {g : CallGraph} {n m : Nat} :
    m ∈ g.callers n ↔ ∃ site, ⟨m, site, n⟩ ∈ g.edges := by
  rw [callers, List.mem_map]
  constructor
  · rintro ⟨e, he, rfl⟩
    obtain ⟨hmem, hn⟩ := List.mem_filter.mp he
    have hcallee : e.callee = n := by simpa using hn
    exact ⟨e.site, hcallee ▸ hmem⟩
  · rintro ⟨site, he⟩
    exact ⟨⟨m, site, n⟩, List.mem_filter.mpr ⟨he, by simp⟩, rfl⟩

theorem mem_targets {g : CallGraph} {n c : Nat} {site : CallSite} :
    c ∈ g.targets n site ↔ ⟨n, site, c⟩ ∈ g.edges := by
  rw [targets, List.mem_map]
  constructor
  · rintro ⟨e, he, rfl⟩
    obtain ⟨hmem, hn⟩ := List.mem_filter.mp he
    obtain ⟨rfl, rfl⟩ : e.caller = n ∧ e.site = site := by simpa using hn
    exact hmem
  · intro he
    exact ⟨⟨n, site, c⟩, List.mem_filter.mpr ⟨he, by simp⟩, rfl⟩

theorem length_callers_le (g : CallGraph) (n : Nat) : (g.callers n).length ≤ g.edges.length := by
  rw [callers, List.length_map]
  exact List.length_filter_le _ _

/-! ### Growth -/

/-- `g` is part of `h`, with every node at its position. -/
structure Within (g h : CallGraph) : Prop where
  nodes : ∀ n x, g.node? n = some x → h.node? n = some x
  edges : ∀ e, e ∈ g.edges → e ∈ h.edges
  entrypoints : ∀ n, n ∈ g.entrypoints → n ∈ h.entrypoints

instance : LE CallGraph := ⟨Within⟩

theorem le_refl (g : CallGraph) : g ≤ g := ⟨fun _ _ h => h, fun _ h => h, fun _ h => h⟩

theorem le_of_eq {g h : CallGraph} (hgh : g = h) : g ≤ h := by
  rw [hgh]
  exact le_refl h

theorem le_trans {g h k : CallGraph} (hgh : g ≤ h) (hhk : h ≤ k) : g ≤ k where
  nodes n x hx := hhk.nodes n x (hgh.nodes n x hx)
  edges e he := hhk.edges e (hgh.edges e he)
  entrypoints n hn := hhk.entrypoints n (hgh.entrypoints n hn)

/-- The edge leads from the root to an entry point. -/
def IsEntry (g : CallGraph) (e : Edge) : Prop := e.caller = root ∧ e.callee ∈ g.entrypoints

theorem IsEntry.mono {g h : CallGraph} {e : Edge} (he : g.IsEntry e) (hgh : g ≤ h) : h.IsEntry e :=
  ⟨he.1, hgh.entrypoints _ he.2⟩

theorem le_insertNode (g : CallGraph) (x : Node) : g ≤ (g.insertNode x).2 where
  nodes _ _ h := node?_insertNode_of_node? x h
  edges e he := by rwa [insertNode_edges]
  entrypoints n hn := by rwa [insertNode_entrypoints]

theorem le_insertEdge (g : CallGraph) (e : Edge) : g ≤ g.insertEdge e where
  nodes n x h := by rwa [node?_insertEdge]
  edges _ he := mem_edges_insertEdge.mpr (Or.inr he)
  entrypoints n hn := by rwa [insertEdge_entrypoints]

theorem le_insertEntrypoint (g : CallGraph) (n : Nat) : g ≤ g.insertEntrypoint n where
  nodes m x h := by rwa [node?_insertEntrypoint]
  edges e he := by rwa [insertEntrypoint_edges]
  entrypoints _ hm := mem_entrypoints_insertEntrypoint.mpr (Or.inr hm)

end CallGraph
end StreamVerdict
