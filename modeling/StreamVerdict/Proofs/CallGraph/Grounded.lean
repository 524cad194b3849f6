/-
  Nothing is in a call graph without a reason.

  A graph with its points-to sets is grounded if whatever is in it follows from the entry points
  by the rules.  Every single change keeps it grounded: an object that flows into a set, a call
  that is put into the graph, an entry point that is seeded.  So a construction is grounded at
  every turn, and whatever is in a built call graph can be derived.
-/
import StreamVerdict.Proofs.Body.Draft
import StreamVerdict.Proofs.Body.Widths
import StreamVerdict.Proofs.CallGraph.Derivation

namespace StreamVerdict
namespace Construction

variable {p : Plan} {entrypoints : List MethodRef}

/-! ### Single changes -/

/-- Whatever is there can be derived, the entry points of the graph are nodes of listed ones,
    and every node but the root is called from one that was there before it. -/
structure Grounded (p : Plan) (entrypoints : List MethodRef) (g : CallGraph) (pts : PointsTo) :
    Prop where
  node : ∀ n x, g.node? n = some x → Derivable p entrypoints (.node x)
  edge : ∀ e ∈ g.edges, ∃ x y, g.node? e.caller = some x ∧ g.node? e.callee = some y ∧
    Derivable p entrypoints (.edge x e.site y)
  holds : ∀ n v o, o ∈ pts.get n v →
    ∃ x, g.node? n = some x ∧ Derivable p entrypoints (.holds x v o)
  entry : ∀ n ∈ g.entrypoints, ∃ i entry b receiver,
    IsEntryPoint p entrypoints i entry b receiver ∧
      g.node? n = some (entryNode p (entrySite (entry, i) b) receiver)
  called : ∀ n x, g.node? n = some x →
    n = CallGraph.root ∨ ∃ m site, m < n ∧ ⟨m, site, n⟩ ∈ g.edges

namespace Grounded

variable {g : CallGraph} {pts : PointsTo} {n : Nat} {x : Node}

theorem derivable_holds (h : Grounded p entrypoints g pts) (hx : g.node? n = some x)
    {v : ValueNumber} {o : Instance} (ho : o ∈ pts.get n v) :
    Derivable p entrypoints (.holds x v o) := by
  obtain ⟨y, hy, hderived⟩ := h.holds n v o ho
  rw [hx] at hy
  cases hy
  exact hderived

/-- Derived objects may be added to a set. -/
theorem insertAll (h : Grounded p entrypoints g pts) (hx : g.node? n = some x) {v : ValueNumber}
    {is : List Instance} (his : ∀ o ∈ is, Derivable p entrypoints (.holds x v o)) :
    Grounded p entrypoints g (pts.insertAll n v is) := by
  refine ⟨h.node, h.edge, ?_, h.entry, h.called⟩
  intro m w o ho
  rcases PointsTo.mem_get_insertAll.mp ho with hold | ⟨rfl, rfl, hnew⟩
  · exact h.holds m w o hold
  · exact ⟨x, hx, his o hnew⟩

/-- A derived call may be put into the graph together with the node that it leads to. -/
theorem link {s : Progress} (h : Grounded p entrypoints s.graph pts)
    (hx : s.graph.node? n = some x) {site : CallSite} {y : Node}
    (hy : Derivable p entrypoints (.node y)) (hedge : Derivable p entrypoints (.edge x site y)) :
    Grounded p entrypoints (Construction.link s n site y).graph pts := by
  have hle := link_graph_le s n site y
  have hself := node?_link_self s n site y
  refine ⟨?_, ?_, ?_, ?_, ?_⟩
  · intro m z hz
    rcases node?_link hz with hold | ⟨-, -, rfl⟩
    · exact h.node m z hold
    · exact hy
  · intro e he
    rcases mem_edges_link.mp he with rfl | hold
    · exact ⟨x, y, hle.nodes n x hx, hself, hedge⟩
    · obtain ⟨x', y', hx', hy', hderived⟩ := h.edge e hold
      exact ⟨x', y', hle.nodes _ _ hx', hle.nodes _ _ hy', hderived⟩
  · intro m v o ho
    obtain ⟨z, hz, hderived⟩ := h.holds m v o ho
    exact ⟨z, hle.nodes m z hz, hderived⟩
  · intro m hm
    have hm' : m ∈ s.graph.entrypoints := by
      simpa [Construction.link] using hm
    obtain ⟨i, entry, b, receiver, hentry, hnode⟩ := h.entry m hm'
    exact ⟨i, entry, b, receiver, hentry, hle.nodes _ _ hnode⟩
  · intro m z hz
    rcases node?_link hz with hold | ⟨hnone, rfl, -⟩
    · rcases h.called m z hold with hroot | ⟨k, site', hlt, hcall⟩
      · exact Or.inl hroot
      · exact Or.inr ⟨k, site', hlt, hle.edges _ hcall⟩
    · -- The node is new, and so it stands behind all the others.
      refine Or.inr ⟨n, site, ?_, edge_mem_link s n site y⟩
      have hlast : (s.graph.insertNode y).1 = s.graph.nodes.length := by
        rw [CallGraph.insertNode_of_none hnone]
      rw [hlast]
      exact CallGraph.node?_lt hx

/-- The node of a listed entry point may be registered. -/
theorem insertEntrypoint (h : Grounded p entrypoints g pts) {i : Nat} {entry : MethodRef}
    {b : Body} {receiver : Option Instance}
    (hentry : IsEntryPoint p entrypoints i entry b receiver)
    (hn : g.node? n = some (entryNode p (entrySite (entry, i) b) receiver)) :
    Grounded p entrypoints (g.insertEntrypoint n) pts := by
  have hle := CallGraph.le_insertEntrypoint g n
  refine ⟨?_, ?_, ?_, ?_, ?_⟩
  · intro m y hy
    rw [CallGraph.node?_insertEntrypoint] at hy
    exact h.node m y hy
  · intro e he
    rw [CallGraph.insertEntrypoint_edges] at he
    obtain ⟨x, y, hx, hy, hderived⟩ := h.edge e he
    exact ⟨x, y, hle.nodes _ _ hx, hle.nodes _ _ hy, hderived⟩
  · intro m v o ho
    obtain ⟨y, hy, hderived⟩ := h.holds m v o ho
    exact ⟨y, hle.nodes m y hy, hderived⟩
  · intro m hm
    rcases CallGraph.mem_entrypoints_insertEntrypoint.mp hm with rfl | hold
    · exact ⟨i, entry, b, receiver, hentry, hle.nodes _ _ hn⟩
    · obtain ⟨i', entry', b', receiver', hentry', hnode⟩ := h.entry m hold
      exact ⟨i', entry', b', receiver', hentry', hle.nodes _ _ hnode⟩
  · intro m y hy
    rw [CallGraph.node?_insertEntrypoint] at hy
    rw [CallGraph.insertEntrypoint_edges]
    exact h.called m y hy

end Grounded

/-- The construction as it stands is grounded. -/
abbrev Progress.Grounded (p : Plan) (entrypoints : List MethodRef) (s : Progress) : Prop :=
  Construction.Grounded p entrypoints s.graph s.pointsTo

/-! ### Processing a node -/

/-- An advance of a node that keeps the construction grounded. -/
structure GroundedAdvance (p : Plan) (entrypoints : List MethodRef) (n : Nat) (x : Node) (b : Body)
    (a a' : Progress × Bool) : Prop where
  advance : Advance p n x b a a'
  grounded : a.1.Grounded p entrypoints → a'.1.Grounded p entrypoints

namespace GroundedAdvance

variable {n : Nat} {x : Node} {b : Body}

theorem refl (a : Progress × Bool) : GroundedAdvance p entrypoints n x b a a :=
  ⟨Advance.refl a, id⟩

theorem trans {a a' a'' : Progress × Bool} (h : GroundedAdvance p entrypoints n x b a a')
    (h' : GroundedAdvance p entrypoints n x b a' a'') :
    GroundedAdvance p entrypoints n x b a a'' :=
  ⟨h.advance.trans h'.advance, fun ha => h'.grounded (h.grounded ha)⟩

end GroundedAdvance

variable {n : Nat} {x : Node} {b : Body}

/-- Passing the arguments of a derived call keeps the construction grounded. -/
theorem grounded_bindParams {s : Progress} {callee : Nat} {args : List ValueNumber}
    {site : CallSite} {t : MethodRef × Option Instance} {c : Body}
    (h : s.Grounded p entrypoints) (hx : s.graph.node? n = some x)
    (hcallee : s.graph.node? callee = some (calledNode p x site t))
    (htarget : Derivable p entrypoints (.target x args site t.1 t.2))
    (hc : p.provider.request t.1 = .ok (some c)) :
    (bindParams s n callee args t.2 c).1.Grounded p entrypoints := by
  rw [bindParams_eq]
  -- The graph stays the same, so that both nodes are in place for each parameter.
  refine ((foldl_passes (R := fun a a' : Progress × Bool => a'.1.graph = a.1.graph ∧
    (a.1.Grounded p entrypoints → a'.1.Grounded p entrypoints)) (fun _ => ⟨rfl, id⟩)
    (fun _ _ _ h₁ h₂ => ⟨h₂.1.trans h₁.1, h₂.2 ∘ h₁.2⟩) (s, false) ?_).1).2 h
  rintro a ⟨v, j⟩ hmem ⟨hgraph, -⟩
  refine ⟨rfl, ?_⟩
  intro ha
  have hx' : a.1.graph.node? n = some x := by
    rw [hgraph]
    exact hx
  have hcallee' : a.1.graph.node? callee = some (calledNode p x site t) := by
    rw [hgraph]
    exact hcallee
  refine ha.insertAll hcallee' ?_
  intro o ho
  exact derivable_of_mem_passed htarget hc (fun w q hq => ha.derivable_holds hx' hq)
    (List.mem_zipIdx_iff_getElem?.mp hmem) ho

/-- Following a call keeps the construction grounded. -/
theorem grounded_follow {k : Nat} {result : Option ValueNumber} {args : List ValueNumber}
    {site : CallSite} {line : UInt32} {pts : PointsTo} {a a' : Progress × Bool}
    {t : MethodRef × Option Instance} (h : a.1.Grounded p entrypoints)
    (hx : a.1.graph.node? n = some x) (hb : p.provider.request x.method = .ok (some b))
    (hins : Instruction.invoke k result args site line ∈ b.instructions)
    (hpts : pts ≤ a.1.pointsTo) (ht : t ∈ targets p pts n args site)
    (hfollow : follow p n x result args site a t = .ok a') : a'.1.Grounded p entrypoints := by
  have htarget : Derivable p entrypoints (.target x args site t.1 t.2) :=
    derivable_of_mem_targets (h.node n x hx) hb hins
      (fun v o ho => h.derivable_holds hx (hpts n v o ho)) ht
  obtain ⟨s, callee, isNew, hgraph, hpointsTo, -, hcallee, -, hcases⟩ := follow_cases hfollow
  have hs : s.Grounded p entrypoints := by
    rw [Progress.Grounded, hgraph, hpointsTo]
    exact h.link hx htarget.called htarget.edge
  have hx' : s.graph.node? n = some x := by
    rw [hgraph]
    exact (link_graph_le _ _ _ _).nodes n x hx
  rcases hcases with ⟨-, rfl⟩ | ⟨c, hreq, rfl⟩
  · exact hs
  · obtain ⟨hg, -⟩ := deliver_spec s n callee isNew args t.2 c
    have hdelivered : (deliver s n callee isNew args t.2 c).Grounded p entrypoints := by
      have hbound := grounded_bindParams hs hx' hcallee htarget hreq
      rw [deliver]
      split
      · exact hbound
      · exact hbound
    rcases result with _ | d
    · exact hdelivered
    · -- What comes back is what the called node holds after the arguments went in.
      rw [← hg] at hx' hcallee
      refine hdelivered.insertAll hx' ?_
      intro o ho
      obtain ⟨w, hw, hmem⟩ := PointsTo.mem_union.mp ho
      exact .returned htarget hb hins hreq hw (hdelivered.derivable_holds hcallee hmem)

theorem groundedAdvance_execute {a a' : Progress × Bool} {ins : Instruction}
    (hx : a.1.graph.node? n = some x) (hb : p.provider.request x.method = .ok (some b))
    (hins : ins ∈ b.instructions) (hex : execute p n x a ins = .ok a') :
    GroundedAdvance p entrypoints n x b a a' := by
  refine ⟨execute_advance hins hex, ?_⟩
  intro h
  cases ins with
  | new k v site line =>
      cases hex
      refine h.insertAll hx ?_
      intro o ho
      rw [List.mem_singleton] at ho
      subst ho
      exact .allocation (h.node n x hx) hb hins
  | invoke k result args site line =>
      have hstep : ∀ a₁ t a₂, t ∈ targets p a.1.pointsTo n args site →
          GroundedAdvance p entrypoints n x b a a₁ → follow p n x result args site a₁ t = .ok a₂ →
          GroundedAdvance p entrypoints n x b a₁ a₂ := by
        intro a₁ t a₂ ht h₁ hfollow
        refine ⟨follow_advance hins ht h₁.advance.pointsTo hfollow, ?_⟩
        intro ha
        exact grounded_follow ha (h₁.advance.graph.nodes n x hx) hb hins h₁.advance.pointsTo ht
          hfollow
      exact (foldlM_passes GroundedAdvance.refl (fun _ _ _ => GroundedAdvance.trans) hstep
        hex).1.grounded h
  | ret k v line =>
      cases hex
      exact h

theorem groundedAdvance_mergePhi {a : Progress × Bool} {phi : Phi}
    (hx : a.1.graph.node? n = some x) (hb : p.provider.request x.method = .ok (some b))
    (hphi : phi ∈ b.phis) : GroundedAdvance p entrypoints n x b a (mergePhi n a phi) := by
  refine ⟨mergePhi_advance a phi, ?_⟩
  intro h
  refine h.insertAll hx ?_
  intro o ho
  obtain ⟨u, hu, hmem⟩ := PointsTo.mem_union.mp ho
  exact .phi (h.node n x hx) hb hphi hu (h.derivable_holds hx hmem)

/-- Processing a node keeps the construction grounded. -/
theorem grounded_process {s s' : Progress} (h : s.Grounded p entrypoints)
    (hproc : process p n s = .ok s') : s'.Grounded p entrypoints := by
  rcases process_eq_ok hproc with ⟨-, rfl⟩ | ⟨x, body?, s₁, hx, hfetch, hrest⟩
  · exact h
  · obtain ⟨hreq, hgraph, hpts, -⟩ := fetch_eq_ok hfetch
    have h₁ : s₁.Grounded p entrypoints := by
      rw [Progress.Grounded, hgraph, hpts]
      exact h
    rw [← hgraph] at hx
    rcases body? with _ | b
    · have hrest' : s' = s₁ := hrest
      rw [hrest']
      exact h₁
    · obtain ⟨a, hfold, rfl⟩ := hrest
      -- Merges first, then the instructions; the node stays where it is.
      have hmerge : GroundedAdvance p entrypoints n x b (s₁, false)
          (b.phis.foldl (mergePhi n) (s₁, false)) := by
        refine (foldl_passes GroundedAdvance.refl (fun _ _ _ => GroundedAdvance.trans) _ ?_).1
        intro a₁ phi hphi h₁
        exact groundedAdvance_mergePhi (h₁.advance.graph.nodes n x hx) hreq hphi
      have hwork : GroundedAdvance p entrypoints n x b
          (b.phis.foldl (mergePhi n) (s₁, false)) a := by
        refine (foldlM_passes GroundedAdvance.refl (fun _ _ _ => GroundedAdvance.trans) ?_ hfold).1
        intro a₁ ins a₂ hins h₁ hex
        exact groundedAdvance_execute ((hmerge.trans h₁).advance.graph.nodes n x hx) hreq hins hex
      obtain ⟨hg, hp, -⟩ := requeue_spec n a
      rw [Progress.Grounded, hg, hp]
      exact (hmerge.trans hwork).grounded h₁

/-! ### Seeding -/

/-- Seeding that keeps the construction grounded. -/
structure GroundedSown (p : Plan) (entrypoints : List MethodRef) (s s' : Progress) : Prop where
  sown : Sown s s'
  grounded : s.Grounded p entrypoints → s'.Grounded p entrypoints

theorem GroundedSown.refl (s : Progress) : GroundedSown p entrypoints s s := ⟨Sown.refl s, id⟩

theorem GroundedSown.trans {s s' s'' : Progress} (h : GroundedSown p entrypoints s s')
    (h' : GroundedSown p entrypoints s' s'') : GroundedSown p entrypoints s s'' :=
  ⟨h.sown.trans h'.sown, fun hs => h'.grounded (h.grounded hs)⟩

theorem grounded_fillParams {g : CallGraph} {pts : PointsTo} {i : Nat} {entry : MethodRef}
    {receiver : Option Instance} (h : Grounded p entrypoints g pts)
    (hentry : IsEntryPoint p entrypoints i entry b receiver)
    (hn : g.node? n = some (entryNode p (entrySite (entry, i) b) receiver)) :
    Grounded p entrypoints g (fillParams p (entrySite (entry, i) b) b receiver n pts) := by
  refine (foldl_passes (R := fun pts pts' : PointsTo => Grounded p entrypoints g pts →
    Grounded p entrypoints g pts') (fun _ => id) (fun _ _ _ h₁ h₂ => h₂ ∘ h₁) pts ?_).1 h
  rintro pts' ⟨v, j⟩ hmem - hpts'
  refine hpts'.insertAll hn ?_
  intro o ho
  exact hentry.derivable_of_mem (List.mem_zipIdx_iff_getElem?.mp hmem) ho

theorem groundedSown_seedNode {s : Progress} {i : Nat} {entry : MethodRef}
    {receiver : Option Instance} (hroot : s.graph.node? CallGraph.root = some CallGraph.rootNode)
    (hentry : IsEntryPoint p entrypoints i entry b receiver) :
    GroundedSown p entrypoints s (seedNode p (entrySite (entry, i) b) b s receiver) := by
  refine ⟨(seedNode_sown _ _ _ _).1, ?_⟩
  intro h
  -- Apart from the registration, the entry point is called from the root like any other node.
  have hlinked := h.link (s := s) hroot (.entry hentry) (.entryEdge hentry)
  have hself := node?_link_self s CallGraph.root (entrySite (entry, i) b)
    (entryNode p (entrySite (entry, i) b) receiver)
  have hregistered := hlinked.insertEntrypoint hentry hself
  rw [seedNode_eq]
  show Grounded p entrypoints (((s.graph.insertNode _).2.insertEntrypoint _).insertEdge _)
    (fillParams p _ b receiver _ s.pointsTo)
  rw [CallGraph.insertEdge_insertEntrypoint]
  refine grounded_fillParams hregistered hentry ?_
  rw [CallGraph.node?_insertEntrypoint]
  exact hself

theorem groundedSown_seedEntry {s s' : Progress} {i : Nat} {entry : MethodRef}
    (hroot : s.graph.node? CallGraph.root = some CallGraph.rootNode)
    (hlisted : entrypoints[i]? = some entry) (h : seedEntry p s (entry, i) = .ok s') :
    GroundedSown p entrypoints s s' := by
  refine ⟨(seedEntry_sown h).1, ?_⟩
  intro hs
  rw [seedEntry, bind_eq_ok] at h
  obtain ⟨⟨body?, s₁⟩, hfetch, hrest⟩ := h
  obtain ⟨hreq, hgraph, hpts, -⟩ := fetch_eq_ok hfetch
  have hs₁ : s₁.Grounded p entrypoints := by
    rw [Progress.Grounded, hgraph, hpts]
    exact hs
  rw [← hgraph] at hroot
  rcases body? with _ | b
  · cases hrest
  · cases hrest
    refine (foldl_passes GroundedSown.refl (fun _ _ _ => GroundedSown.trans) s₁ ?_).1.grounded hs₁
    intro s₂ receiver hreceiver h₂
    exact groundedSown_seedNode (h₂.sown.graph.nodes _ _ hroot)
      ⟨hlisted, hreq, mem_entryReceivers.mp hreceiver⟩

theorem grounded_start : Progress.start.Grounded p entrypoints := by
  -- There is nothing but the root.
  have honly : ∀ n x, Progress.start.graph.node? n = some x →
      n = CallGraph.root ∧ x = CallGraph.rootNode := by
    intro n x hx
    have hlt : n < 1 := CallGraph.node?_lt hx
    obtain rfl : n = 0 := by omega
    cases hx
    exact ⟨rfl, rfl⟩
  refine ⟨?_, ?_, ?_, ?_, ?_⟩
  · intro n x hx
    rw [(honly n x hx).2]
    exact .root
  · intro e he
    cases he
  · intro n v o ho
    exact absurd ho (OrdSet.not_mem_empty o)
  · intro n hn
    cases hn
  · intro n x hx
    exact Or.inl (honly n x hx).1

theorem grounded_of_seeding {s : Progress}
    (h : entrypoints.zipIdx.foldlM (seedEntry p) Progress.start = .ok s) :
    s.Grounded p entrypoints := by
  refine (foldlM_passes GroundedSown.refl (fun _ _ _ => GroundedSown.trans) ?_ h).1.grounded
    grounded_start
  rintro s₁ ⟨entry, i⟩ s₂ hmem h₁ hseed
  exact groundedSown_seedEntry (h₁.sown.graph.nodes _ _ rfl)
    (List.mem_zipIdx_iff_getElem?.mp hmem) hseed

/-! ### Built call graphs -/

theorem grounded_of_reaches {s₀ s : Progress} (h : (machine p).Reaches s₀ s)
    (hs₀ : s₀.Grounded p entrypoints) : s.Grounded p entrypoints := by
  refine h.preserves ?_ hs₀
  intro s n t s' hs htake hproc
  obtain ⟨rest, -, rfl⟩ := take?_eq_some htake
  exact grounded_process (s := { s with queue := rest }) hs hproc

theorem grounded_of_build {monitor : Monitor} {g : BuiltGraph}
    (h : (build p entrypoints monitor).result = .ok g) :
    Grounded p entrypoints g.graph g.pointsTo := by
  obtain ⟨s₀, s, hseed, hreach, -, rfl⟩ := reaches_of_build h
  exact grounded_of_reaches hreach (grounded_of_seeding hseed)

/-- The edge stems from a call of its calling node that dispatches, and leads to the method that
    is found for one of the receivers of the call, run on that receiver. -/
structure Dispatched (p : Plan) (g : BuiltGraph) (e : Edge) (r : Instance) : Prop where
  call : ∃ x b k result args line v, g.graph.node? e.caller = some x ∧
    p.provider.request x.method = .ok (some b) ∧
    Instruction.invoke k result args e.site line ∈ b.instructions ∧
    args.head? = some v ∧ r ∈ g.pointsTo.get e.caller v
  target : ∃ y, g.graph.node? e.callee = some y ∧ y.context.receiver = some r ∧
    p.hierarchy.dispatch? r.type.name e.site.declaredTarget = some y.method

theorem Invariant.dispatched {s : Progress} {g : BuiltGraph} {e : Edge}
    (hinv : Invariant p entrypoints s) (hg : g = ⟨s.graph, s.pointsTo, s.bodies, p.depth⟩)
    (he : e ∈ g.graph.edges) (hkind : e.site.kind.isDispatch = true)
    (hcaller : e.caller ≠ CallGraph.root) : ∃ r, Dispatched p g e r := by
  subst hg
  rcases hinv.edges e he with hentry | ⟨x, b, hx, hb, hstems⟩
  · exact absurd hentry.1 hcaller
  · obtain ⟨k, result, args, line, pts, t, hins, hle, ht, hnode⟩ := hstems
    -- The receiver was there when the call was followed, and nothing is ever taken out.
    obtain ⟨v, r, hv, hr, hm, hreceiver⟩ := exists_receiver_of_mem_targets hkind ht
    exact ⟨r, ⟨x, b, k, result, args, line, v, hx, hb, hins, hv, hle _ _ r hr⟩,
      _, hnode, hreceiver, hm⟩

/-- The call site of a derived edge is at the position of an entry point, or is one of the body
    of its caller. -/
theorem Derivable.site_of_edge {x y : Node} {site : CallSite}
    (h : Derivable p entrypoints (.edge x site y)) :
    site.programCounter < entrypoints.length ∨
      ∃ b, p.provider.request x.method = .ok (some b) ∧ site ∈ b.callSites := by
  have hsite : ∀ {b : Body} {k : Nat} {result : Option ValueNumber} {args : List ValueNumber}
      {line : UInt32}, Instruction.invoke k result args site line ∈ b.instructions →
      site ∈ b.callSites := fun hcall => List.mem_filterMap.mpr ⟨_, hcall, rfl⟩
  cases h with
  | entryEdge hentry => exact Or.inl (List.getElem?_eq_some_iff.mp hentry.listed).1
  | edge htarget =>
      refine Or.inr ?_
      cases htarget with
      | dispatch _ hbody hcall _ _ _ _ => exact ⟨_, hbody, hsite hcall⟩
      | direct _ hbody hcall _ => exact ⟨_, hbody, hsite hcall⟩
      | special _ hbody hcall _ _ _ => exact ⟨_, hbody, hsite hcall⟩

/-- Every node, every edge and every object in a points-to set of a built call graph can be
    derived from the entry points.  In particular every edge of a dispatching call stems from a
    receiver that the call has at the end, the edges from the root to entry points apart.  Entry
    points are called from their positions, so that all call sites fit if the bodies do and there
    are not more entry points than words of 32 bits. -/
theorem build_derivable (p : Plan) (entrypoints : List MethodRef) (monitor : Monitor)
    (g : BuiltGraph) (h : (build p entrypoints monitor).result = .ok g) :
    (∀ n x, g.graph.node? n = some x → Derivable p entrypoints (.node x)) ∧
    (∀ e ∈ g.graph.edges, ∃ x y, g.graph.node? e.caller = some x ∧
      g.graph.node? e.callee = some y ∧ Derivable p entrypoints (.edge x e.site y)) ∧
    (∀ n v o, o ∈ g.pointsTo.get n v →
      ∃ x, g.graph.node? n = some x ∧ Derivable p entrypoints (.holds x v o)) ∧
    (∀ e ∈ g.graph.edges, e.site.kind.isDispatch = true → e.caller ≠ CallGraph.root →
      ∃ r, Dispatched p g e r) ∧
    ((∀ m b, p.provider.request m = .ok (some b) → b.Fits) → entrypoints.length ≤ UInt32.size →
      ∀ e ∈ g.graph.edges, e.site.Fits) := by
  have hgrounded := grounded_of_build h
  refine ⟨hgrounded.node, hgrounded.edge, hgrounded.holds, ?_, ?_⟩
  · intro e he hkind hcaller
    obtain ⟨s, hinv, -, hg⟩ := invariant_of_build h
    exact hinv.dispatched hg he hkind hcaller
  · intro hbodies hentries e he
    obtain ⟨x, y, -, -, hedge⟩ := hgrounded.edge e he
    rcases hedge.site_of_edge with hposition | ⟨b, hb, hsite⟩
    · exact Nat.lt_of_lt_of_le hposition hentries
    · exact (hbodies x.method b hb).callSite hsite

namespace Copying

theorem fits_of_request {m : MethodRef} {b : Body}
    (h : plan.provider.request m = .ok (some b)) : b.Fits := by
  obtain rfl : b = body := List.mem_singleton.mp (BodyStore.mem_bodies_of_request h)
  decide +kernel

/-- The method that calls itself on the cell that it allocates. -/
theorem build_derivable_copying :
    ∃ g, (build plan [copy] .unlimited).result = .ok g ∧ g.graph.node? 3 = some inner ∧
      Derivable plan [copy] (.node inner) ∧ ⟨3, again, 3⟩ ∈ g.graph.edges ∧
      Derivable plan [copy] (.edge inner again inner) ∧
      (∃ r, Dispatched plan g ⟨3, again, 3⟩ r) ∧
      ∀ e ∈ g.graph.edges, e.site.Fits := by
  obtain ⟨g, hg, hnode, hloop⟩ := built
  obtain ⟨hnodes, hedges, -, hdispatched, hfits⟩ := build_derivable plan [copy] .unlimited g hg
  obtain ⟨x, y, hx, hy, hedge⟩ := hedges _ hloop
  rw [hnode] at hx hy
  cases hx
  cases hy
  exact ⟨g, hg, hnode, hnodes 3 inner hnode, hloop, hedge, hdispatched _ hloop rfl (by decide),
    hfits (fun _ _ => fits_of_request) (by decide)⟩

end Copying

end Construction
end StreamVerdict
