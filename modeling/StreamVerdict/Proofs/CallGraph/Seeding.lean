/-
  The entry points of a construction.

  Seeding adds a node for each receiver of each entry point, registers it, calls it from the
  root, fills its parameters with objects from outside of the program and queues it.  What it
  put in place is never taken away again.
-/
import StreamVerdict.Proofs.CallGraph.Closure

namespace StreamVerdict
namespace Construction

variable {p : Plan}

/-! ### What seeding adds -/

/-- Seeding queues every node that it adds, and adds edges from the root to entry points only. -/
structure Sown (s s' : Progress) : Prop where
  graph : s.graph ≤ s'.graph
  pointsTo : s.pointsTo ≤ s'.pointsTo
  queue : ∀ m, m ∈ s.queue → m ∈ s'.queue
  fresh : ∀ m y, s'.graph.node? m = some y → s.graph.node? m = some y ∨ m ∈ s'.queue
  edges : ∀ e, e ∈ s'.graph.edges → e ∈ s.graph.edges ∨ s'.graph.IsEntry e

namespace Sown

theorem of_eq {s s' : Progress} (hgraph : s'.graph = s.graph) (hpts : s'.pointsTo = s.pointsTo)
    (hqueue : s'.queue = s.queue) : Sown s s' where
  graph := by rw [hgraph]; exact CallGraph.le_refl _
  pointsTo := by rw [hpts]; exact PointsTo.le_refl _
  queue m hm := by rw [hqueue]; exact hm
  fresh m y hy := by rw [hgraph] at hy; exact Or.inl hy
  edges e he := by rw [hgraph] at he; exact Or.inl he

theorem refl (s : Progress) : Sown s s := of_eq rfl rfl rfl

theorem trans {s s' s'' : Progress} (h : Sown s s') (h' : Sown s' s'') : Sown s s'' where
  graph := CallGraph.le_trans h.graph h'.graph
  pointsTo := PointsTo.le_trans h.pointsTo h'.pointsTo
  queue m hm := h'.queue m (h.queue m hm)
  fresh m y hy := by
    rcases h'.fresh m y hy with hy' | hq
    · rcases h.fresh m y hy' with hold | hq
      · exact Or.inl hold
      · exact Or.inr (h'.queue m hq)
    · exact Or.inr hq
  edges e he := by
    rcases h'.edges e he with he' | hentry
    · rcases h.edges e he' with hold | hentry
      · exact Or.inl hold
      · exact Or.inr (hentry.mono h'.graph)
    · exact Or.inr hentry

end Sown

/-- The call from the root to an entry point with the given body. -/
def entrySite (entry : MethodRef × Nat) (b : Body) : CallSite :=
  ⟨entry.2, entry.1, if b.isStatic then .static else .virtual⟩

/-- The node of an entry point for one receiver. -/
def entryNode (p : Plan) (site : CallSite) (receiver : Option Instance) : Node :=
  ⟨site.declaredTarget, ⟨CallString.empty.push ⟨site, CallGraph.rootMethod⟩ p.depth, receiver⟩⟩

/-- The node of an entry point for one receiver is registered and called from the root, and
    its parameters hold the receiver and objects of their declared types. -/
def SeededFor (p : Plan) (g : CallGraph) (pts : PointsTo) (site : CallSite) (b : Body)
    (receiver : Option Instance) : Prop :=
  ∃ n, g.node? n = some (entryNode p site receiver) ∧ n ∈ g.entrypoints ∧
    ⟨CallGraph.root, site, n⟩ ∈ g.edges ∧
    ∀ i v, b.params[i]? = some v →
      ∀ o ∈ entryArgument p.hierarchy site.declaredTarget receiver b.isStatic i, o ∈ pts.get n v

theorem SeededFor.mono {g g' : CallGraph} {pts pts' : PointsTo} {site : CallSite} {b : Body}
    {receiver : Option Instance} (h : SeededFor p g pts site b receiver) (hg : g ≤ g')
    (hpts : pts ≤ pts') : SeededFor p g' pts' site b receiver := by
  obtain ⟨n, hn, hentry, hedge, hparams⟩ := h
  refine ⟨n, hg.nodes _ _ hn, hg.entrypoints _ hentry, hg.edges _ hedge, ?_⟩
  intro i v hi o ho
  exact hpts n v o (hparams i v hi o ho)

/-- The points-to sets with the parameters of an entry point filled. -/
def fillParams (p : Plan) (site : CallSite) (b : Body) (receiver : Option Instance) (n : Nat)
    (pts : PointsTo) : PointsTo :=
  b.params.zipIdx.foldl
    (fun pts param =>
      pts.insertAll n param.1
        (entryArgument p.hierarchy site.declaredTarget receiver b.isStatic param.2))
    pts

theorem fillParams_spec (site : CallSite) (b : Body) (receiver : Option Instance) (n : Nat)
    (pts : PointsTo) :
    pts ≤ fillParams p site b receiver n pts ∧
    ∀ i v, b.params[i]? = some v →
      ∀ o ∈ entryArgument p.hierarchy site.declaredTarget receiver b.isStatic i,
        o ∈ (fillParams p site b receiver n pts).get n v := by
  obtain ⟨hle, heach⟩ := foldl_passes (R := (· ≤ ·)) PointsTo.le_refl
    (fun _ _ _ => PointsTo.le_trans)
    (f := fun (pts : PointsTo) (param : ValueNumber × Nat) => pts.insertAll n param.1
      (entryArgument p.hierarchy site.declaredTarget receiver b.isStatic param.2))
    (l := b.params.zipIdx) pts (fun pts param _ _ => PointsTo.le_insertAll _ _ _ _)
  refine ⟨hle, ?_⟩
  intro i v hi o ho
  have hmem : (v, i) ∈ b.params.zipIdx := List.mem_zipIdx_iff_getElem?.mpr hi
  obtain ⟨pts₁, -, hafter⟩ := heach (v, i) hmem
  apply hafter
  exact PointsTo.mem_get_insertAll.mpr (Or.inr ⟨rfl, rfl, ho⟩)

theorem seedNode_eq (site : CallSite) (b : Body) (s : Progress) (receiver : Option Instance) :
    seedNode p site b s receiver =
      let n := (s.graph.insertNode (entryNode p site receiver)).1
      { s with
        graph := ((s.graph.insertNode (entryNode p site receiver)).2.insertEntrypoint n).insertEdge
          ⟨CallGraph.root, site, n⟩
        pointsTo := fillParams p site b receiver n s.pointsTo }.enqueue n := rfl

theorem seedNode_sown (site : CallSite) (b : Body) (s : Progress) (receiver : Option Instance) :
    Sown s (seedNode p site b s receiver) ∧
      SeededFor p (seedNode p site b s receiver).graph (seedNode p site b s receiver).pointsTo
        site b receiver := by
  have hnode := CallGraph.node?_insertNode_self s.graph (entryNode p site receiver)
  have hfresh := fun m y => CallGraph.node?_insertNode (g := s.graph)
    (x := entryNode p site receiver) (y := y) (m := m)
  have hle := CallGraph.le_insertNode s.graph (entryNode p site receiver)
  have hedges := CallGraph.insertNode_edges s.graph (entryNode p site receiver)
  rw [seedNode_eq]
  -- From here on it does not matter whether the node is new.
  generalize (s.graph.insertNode (entryNode p site receiver)).1 = n at hnode hfresh ⊢
  generalize (s.graph.insertNode (entryNode p site receiver)).2 = g at hnode hfresh hle hedges ⊢
  obtain ⟨hpts, hparams⟩ := fillParams_spec (p := p) site b receiver n s.pointsTo
  have hgraph : g ≤ (g.insertEntrypoint n).insertEdge ⟨CallGraph.root, site, n⟩ :=
    CallGraph.le_trans (CallGraph.le_insertEntrypoint _ _) (CallGraph.le_insertEdge _ _)
  have hentry : n ∈ ((g.insertEntrypoint n).insertEdge ⟨CallGraph.root, site, n⟩).entrypoints := by
    rw [CallGraph.insertEdge_entrypoints]
    exact CallGraph.mem_entrypoints_insertEntrypoint.mpr (Or.inl rfl)
  refine ⟨⟨CallGraph.le_trans hle hgraph, hpts, ?_, ?_, ?_⟩, n, hgraph.nodes _ _ hnode, hentry,
    ?_, hparams⟩
  · intro m hm
    exact Worklist.mem_enqueue.mpr (Or.inl hm)
  · intro m y hy
    have hy' : g.node? m = some y := by
      rw [← CallGraph.node?_insertEntrypoint g n, ← CallGraph.node?_insertEdge]
      exact hy
    rcases hfresh m y hy' with hold | ⟨-, hm, -⟩
    · exact Or.inl hold
    · exact Or.inr (Worklist.mem_enqueue.mpr (Or.inr hm))
  · intro e he
    rcases CallGraph.mem_edges_insertEdge.mp he with rfl | hold
    · exact Or.inr ⟨rfl, hentry⟩
    · rw [CallGraph.insertEntrypoint_edges, hedges] at hold
      exact Or.inl hold
  · exact CallGraph.mem_edges_insertEdge.mpr (Or.inl rfl)

/-! ### All entry points -/

/-- An entry point has a body and is seeded for each of its receivers. -/
def Seeded (p : Plan) (g : CallGraph) (pts : PointsTo) (entry : MethodRef × Nat) : Prop :=
  ∃ b, p.provider.request entry.1 = .ok (some b) ∧
    ∀ r ∈ entryReceivers p.hierarchy entry.1 b.isStatic, SeededFor p g pts (entrySite entry b) b r

theorem Seeded.mono {g g' : CallGraph} {pts pts' : PointsTo} {entry : MethodRef × Nat}
    (h : Seeded p g pts entry) (hg : g ≤ g') (hpts : pts ≤ pts') : Seeded p g' pts' entry := by
  obtain ⟨b, hb, hall⟩ := h
  exact ⟨b, hb, fun r hr => (hall r hr).mono hg hpts⟩

theorem seedEntry_sown {s s' : Progress} {entry : MethodRef × Nat}
    (h : seedEntry p s entry = .ok s') :
    Sown s s' ∧ Seeded p s'.graph s'.pointsTo entry := by
  rw [seedEntry, bind_eq_ok] at h
  obtain ⟨⟨body?, s₁⟩, hfetch, hrest⟩ := h
  obtain ⟨hreq, hgraph, hpts, hqueue⟩ := fetch_eq_ok hfetch
  rcases body? with _ | b
  · cases hrest
  · have hs' : s' = (entryReceivers p.hierarchy entry.1 b.isStatic).foldl
        (seedNode p (entrySite entry b) b) s₁ := by
      cases hrest
      rfl
    obtain ⟨hall, heach⟩ := foldl_passes Sown.refl (fun _ _ _ => Sown.trans)
      (f := seedNode p (entrySite entry b) b)
      (l := entryReceivers p.hierarchy entry.1 b.isStatic) s₁
      (fun s r _ _ => (seedNode_sown (entrySite entry b) b s r).1)
    rw [hs']
    refine ⟨(Sown.of_eq hgraph hpts hqueue).trans hall, b, hreq, ?_⟩
    intro r hr
    obtain ⟨s₂, -, hafter⟩ := heach r hr
    exact (seedNode_sown (entrySite entry b) b s₂ r).2.mono hafter.graph hafter.pointsTo

/-- Seeding all entry points puts each of them in place. -/
theorem seedAll_sown {s s' : Progress} {entries : List (MethodRef × Nat)}
    (h : entries.foldlM (seedEntry p) s = .ok s') :
    Sown s s' ∧ ∀ entry ∈ entries, Seeded p s'.graph s'.pointsTo entry := by
  obtain ⟨hall, heach⟩ := foldlM_passes Sown.refl (fun _ _ _ => Sown.trans)
    (fun s₁ entry s₂ _ _ hseed => (seedEntry_sown hseed).1) h
  refine ⟨hall, ?_⟩
  intro entry hentry
  obtain ⟨s₁, s₂, -, hseed, hafter⟩ := heach entry hentry
  exact (seedEntry_sown hseed).2.mono hafter.graph hafter.pointsTo

end Construction
end StreamVerdict
