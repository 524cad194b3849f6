/-
  Where the objects and the bodies of a call graph come from.

  An object gets into a points-to set because an instruction of a node allocates it, or because
  an entry point is seeded with it; every other flow hands on what some set already holds.  A
  node gets into the graph together with the body of its method.  So at every turn of a
  construction each object in a set comes from outside of the program or was allocated by a node
  that is there, and the bodies at hand are those that the provider has for the nodes.
-/
import StreamVerdict.Proofs.CallGraph.Grounded

namespace StreamVerdict

namespace PointsTo

theorem mem_instances {p : PointsTo} {o : Instance} :
    o ∈ p.instances ↔ ∃ c ∈ p.cells, o ∈ c.2 := by
  rw [instances, OrdSet.mem_ofList, List.mem_flatMap]
  rfl

theorem mem_instances_of_get {p : PointsTo} {n : Nat} {v : ValueNumber} {o : Instance}
    (h : o ∈ p.get n v) : o ∈ p.instances := by
  rw [get] at h
  rcases hlookup : p.cells.lookup (n, v) with _ | s
  · rw [hlookup] at h
    exact absurd h (OrdSet.not_mem_empty o)
  · rw [hlookup] at h
    exact mem_instances.mpr ⟨((n, v), s), mem_of_lookup hlookup, h⟩

/-- Adding to one set brings in nothing but what is added. -/
theorem mem_instances_insertAll {p : PointsTo} {n : Nat} {v : ValueNumber} {is : List Instance}
    {o : Instance} (h : o ∈ (p.insertAll n v is).instances) : o ∈ p.instances ∨ o ∈ is := by
  obtain ⟨c, hc, ho⟩ := mem_instances.mp h
  rcases List.mem_cons.mp hc with rfl | hold
  · rcases OrdSet.mem_insertAll.mp ho with hnew | hget
    · exact Or.inr hnew
    · exact Or.inl (mem_instances_of_get hget)
  · exact Or.inl (mem_instances.mpr ⟨c, (List.mem_filter.mp hold).1, ho⟩)

end PointsTo

namespace Construction

variable {p : Plan}

/-! ### Origins -/

/-- An instruction of the node allocates the object. -/
def Allocates (p : Plan) (x : Node) (o : Instance) : Prop :=
  ∃ b k v site line, p.provider.request x.method = .ok (some b) ∧
    Instruction.new k v site line ∈ b.instructions ∧
    o = Instance.allocated x.method site x.context.callString

/-- The object comes from outside of the program, or a node of the graph allocates it. -/
inductive Origin (p : Plan) (g : CallGraph) : Instance → Prop where
  | outside (t : TypeRef) : Origin p g (Instance.synthetic t)
  | allocated {o : Instance} {n : Nat} {x : Node} (hx : g.node? n = some x)
      (ho : Allocates p x o) : Origin p g o

theorem Origin.mono {g g' : CallGraph} {o : Instance} (h : Origin p g o) (hg : g ≤ g') :
    Origin p g' o := by
  cases h with
  | outside t => exact .outside t
  | allocated hx ho => exact .allocated (hg.nodes _ _ hx) ho

/-- Every object in a set has an origin, the bodies at hand are the provider's, and every node has
    its body at hand, the root apart. -/
structure Progress.Traced (p : Plan) (s : Progress) : Prop where
  origin : ∀ o ∈ s.pointsTo.instances, Origin p s.graph o
  fetched : ∀ b ∈ s.bodies, p.provider.request b.method = .ok (some b)
  supplied : ∀ n x b, s.graph.node? n = some x → p.provider.request x.method = .ok (some b) →
    n = CallGraph.root ∨ b ∈ s.bodies

/-! ### Single changes -/

/-- The body that the provider gives out is at hand afterwards, and no other comes in. -/
theorem mem_bodies_fetch {m : MethodRef} {s s' : Progress} {body? : Option Body}
    (h : fetch p m s = .ok (body?, s')) {b : Body} :
    b ∈ s'.bodies ↔ body? = some b ∨ b ∈ s.bodies := by
  rw [fetch] at h
  rcases hreq : p.provider.request m with e | _ | c
  · simp [hreq] at h
  · simp only [hreq, Except.ok.injEq, Prod.mk.injEq] at h
    obtain ⟨rfl, rfl⟩ := h
    simp
  · simp only [hreq] at h
    by_cases hc : c ∈ s.bodies
    · rw [if_pos hc] at h
      simp only [Except.ok.injEq, Prod.mk.injEq] at h
      obtain ⟨rfl, rfl⟩ := h
      constructor
      · exact Or.inr
      · rintro (hcb | hb)
        · cases hcb
          exact hc
        · exact hb
    · rw [if_neg hc] at h
      simp only [Except.ok.injEq, Prod.mk.injEq] at h
      obtain ⟨rfl, rfl⟩ := h
      rw [List.mem_cons, Option.some.injEq, eq_comm]

namespace Progress.Traced

variable {s s' : Progress} {n : Nat}

/-- The body of the method of every new node is asked for, and then all is traced again. -/
theorem fetch {m : MethodRef} {body? : Option Body} {g : CallGraph} (h : s.Traced p)
    (hle : s.graph ≤ g)
    (hnew : ∀ k y, g.node? k = some y → s.graph.node? k = some y ∨ y.method = m)
    (hfetch : Construction.fetch p m { s with graph := g } = .ok (body?, s')) :
    s'.Traced p := by
  obtain ⟨hreq, hgraph, hpts, -⟩ := fetch_eq_ok hfetch
  refine ⟨?_, ?_, ?_⟩
  · intro o ho
    rw [hpts] at ho
    rw [hgraph]
    exact (h.origin o ho).mono hle
  · intro b hb
    rcases (mem_bodies_fetch hfetch).mp hb with rfl | hold
    · rw [p.provider.own m b hreq]
      exact hreq
    · exact h.fetched b hold
  · intro k y b hy hb
    rw [hgraph] at hy
    rcases hnew k y hy with hold | rfl
    · refine (h.supplied k y b hold hb).imp_right ?_
      exact fun hmem => (mem_bodies_fetch hfetch).mpr (Or.inr hmem)
    · rw [hreq] at hb
      cases hb
      exact Or.inr ((mem_bodies_fetch hfetch).mpr (Or.inl rfl))

theorem fetch_same {m : MethodRef} {body? : Option Body} (h : s.Traced p)
    (hfetch : Construction.fetch p m s = .ok (body?, s')) : s'.Traced p :=
  h.fetch (CallGraph.le_refl _) (fun _ _ hy => Or.inl hy) hfetch

theorem insertAll (h : s.Traced p) {v : ValueNumber} {is : List Instance}
    (his : ∀ o ∈ is, Origin p s.graph o) :
    Progress.Traced p { s with pointsTo := s.pointsTo.insertAll n v is } := by
  refine ⟨?_, h.fetched, h.supplied⟩
  intro o ho
  rcases PointsTo.mem_instances_insertAll ho with hold | hnew
  · exact h.origin o hold
  · exact his o hnew

theorem origin_of_get (h : s.Traced p) {v : ValueNumber} {o : Instance}
    (ho : o ∈ s.pointsTo.get n v) : Origin p s.graph o :=
  h.origin o (PointsTo.mem_instances_of_get ho)

theorem origin_of_union (h : s.Traced p) {vs : List ValueNumber} {o : Instance}
    (ho : o ∈ s.pointsTo.union n vs) : Origin p s.graph o := by
  obtain ⟨v, -, hget⟩ := PointsTo.mem_union.mp ho
  exact h.origin_of_get hget

end Progress.Traced

/-! ### Processing a node -/

/-- Traced objects and bodies stay traced while the graph grows. -/
structure Tracing (p : Plan) (s s' : Progress) : Prop where
  graph : s.graph ≤ s'.graph
  traced : s.Traced p → s'.Traced p

namespace Tracing

theorem refl (s : Progress) : Tracing p s s := ⟨CallGraph.le_refl _, id⟩

theorem trans {s s' s'' : Progress} (h : Tracing p s s') (h' : Tracing p s' s'') :
    Tracing p s s'' :=
  ⟨CallGraph.le_trans h.graph h'.graph, fun hs => h'.traced (h.traced hs)⟩

end Tracing

variable {n : Nat} {x : Node} {b : Body}

/-- Passing arguments hands on what the calling node holds, and the receiver. -/
theorem traced_bindParams {s : Progress} {receiver : Option Instance} (h : s.Traced p)
    (hreceiver : ∀ r, receiver = some r → Origin p s.graph r) (n callee : Nat)
    (args : List ValueNumber) (c : Body) :
    (bindParams s n callee args receiver c).1.Traced p := by
  rw [bindParams_eq]
  refine ((foldl_passes (R := fun a a' : Progress × Bool => a'.1.graph = a.1.graph ∧
    (a.1.Traced p → a'.1.Traced p)) (fun _ => ⟨rfl, id⟩)
    (fun _ _ _ h₁ h₂ => ⟨h₂.1.trans h₁.1, h₂.2 ∘ h₁.2⟩) (s, false) ?_).1).2 h
  rintro a ⟨v, j⟩ - ⟨hgraph, -⟩
  refine ⟨rfl, ?_⟩
  intro ha
  refine ha.insertAll ?_
  intro o ho
  rcases mem_passed_cases ho with ⟨-, -, hself⟩ | ⟨-, u, -, hget⟩
  · rw [hgraph]
    exact hreceiver o hself
  · exact ha.origin_of_get hget

theorem traced_follow {result : Option ValueNumber} {args : List ValueNumber} {site : CallSite}
    {a a' : Progress × Bool} {t : MethodRef × Option Instance} (h : a.1.Traced p)
    (hreceiver : ∀ r, t.2 = some r → Origin p a.1.graph r)
    (hfollow : follow p n x result args site a t = .ok a') : a'.1.Traced p := by
  obtain ⟨body?, s, hfetch, hrest⟩ := follow_eq_ok hfollow
  have hle := link_graph_le a.1 n site (calledNode p x site t)
  have hs : s.Traced p := by
    refine h.fetch hle ?_ hfetch
    intro k y hy
    rcases node?_link hy with hold | ⟨-, -, rfl⟩
    · exact Or.inl hold
    · exact Or.inr rfl
  have hgraph := (fetch_eq_ok hfetch).2.1
  rcases body? with _ | c
  · have hrest' : a' = (s, a.2) := hrest
    rw [hrest']
    exact hs
  · -- The arguments go in, and what the called node holds comes back.
    have hself : ∀ r, t.2 = some r → Origin p s.graph r := by
      intro r hr
      rw [hgraph]
      exact (hreceiver r hr).mono hle
    have hbound := traced_bindParams hs hself n
      (a.1.graph.insertNode (calledNode p x site t)).1 args c
    generalize (a.1.graph.insertNode (calledNode p x site t)).1 = callee at hrest hbound
    generalize (a.1.graph.find? (calledNode p x site t)).isNone = isNew at hrest
    have hdelivered : (deliver s n callee isNew args t.2 c).Traced p := by
      rw [deliver]
      split
      · exact ⟨hbound.origin, hbound.fetched, hbound.supplied⟩
      · exact hbound
    have hrest' : a' = bringBack (deliver s n callee isNew args t.2 c) a.2 n callee result c :=
      hrest
    rw [hrest']
    rcases result with _ | d
    · exact hdelivered
    · exact hdelivered.insertAll fun o ho => hdelivered.origin_of_union ho

/-- The receivers of a call are in the sets of the calling node. -/
theorem exists_get_of_mem_targets {pts : PointsTo} {args : List ValueNumber} {site : CallSite}
    {t : MethodRef × Option Instance} (ht : t ∈ targets p pts n args site) {r : Instance}
    (hr : t.2 = some r) : ∃ v, r ∈ pts.get n v := by
  rcases mem_targets_cases ht with
    ⟨-, v, r', -, hget, -, hreceiver⟩ | ⟨-, rfl⟩ | ⟨-, v, r', -, hget, rfl⟩
  · rw [hr] at hreceiver
    cases hreceiver
    exact ⟨v, hget⟩
  · cases hr
  · cases hr
    exact ⟨v, hget⟩

theorem tracing_execute {a a' : Progress × Bool} {ins : Instruction}
    (hx : a.1.graph.node? n = some x) (hb : p.provider.request x.method = .ok (some b))
    (hins : ins ∈ b.instructions) (hex : execute p n x a ins = .ok a') :
    Tracing p a.1 a'.1 := by
  refine ⟨(execute_advance hins hex).graph, ?_⟩
  intro h
  cases ins with
  | new k v site line =>
      cases hex
      refine h.insertAll ?_
      intro o ho
      exact .allocated hx ⟨b, k, v, site, line, hb, hins, List.mem_singleton.mp ho⟩
  | invoke k result args site line =>
      have hstep : ∀ a₁ t a₂, t ∈ targets p a.1.pointsTo n args site → Tracing p a.1 a₁.1 →
          follow p n x result args site a₁ t = .ok a₂ → Tracing p a₁.1 a₂.1 := by
        intro a₁ t a₂ ht h₁ hfollow
        refine ⟨?_, ?_⟩
        · obtain ⟨s, _, _, hgraph, -, -, -, -, hcases⟩ := follow_cases hfollow
          have hle : a₁.1.graph ≤ s.graph := by
            rw [hgraph]
            exact link_graph_le _ _ _ _
          rcases hcases with ⟨-, rfl⟩ | ⟨c, -, rfl⟩
          · exact hle
          · rw [bringBack_graph, (deliver_spec _ _ _ _ _ _ _).1]
            exact hle
        · intro ha
          refine traced_follow ha ?_ hfollow
          -- The targets were read off before the first of them was followed.
          intro r hr
          obtain ⟨v, hget⟩ := exists_get_of_mem_targets ht hr
          exact (h.origin_of_get hget).mono h₁.graph
      exact (foldlM_passes (R := fun a a' : Progress × Bool => Tracing p a.1 a'.1)
        (fun _ => Tracing.refl _) (fun _ _ _ => Tracing.trans) hstep hex).1.traced h
  | ret k v line =>
      cases hex
      exact h

theorem traced_process {s s' : Progress} (h : s.Traced p) (hproc : process p n s = .ok s') :
    s'.Traced p := by
  rcases process_eq_ok hproc with ⟨-, rfl⟩ | ⟨x, body?, s₁, hx, hfetch, hrest⟩
  · exact h
  · have h₁ : s₁.Traced p := h.fetch_same hfetch
    obtain ⟨hreq, hgraph, -, -⟩ := fetch_eq_ok hfetch
    rw [← hgraph] at hx
    rcases body? with _ | b
    · have hrest' : s' = s₁ := hrest
      rw [hrest']
      exact h₁
    · obtain ⟨a, hfold, rfl⟩ := hrest
      have hmerge : Tracing p s₁ (b.phis.foldl (mergePhi n) (s₁, false)).1 := by
        refine (foldl_passes (R := fun a a' : Progress × Bool => Tracing p a.1 a'.1)
          (fun _ => Tracing.refl _) (fun _ _ _ => Tracing.trans) (s₁, false) ?_).1
        intro a₁ phi _ _
        exact ⟨CallGraph.le_refl _, fun ha => ha.insertAll fun o ho => ha.origin_of_union ho⟩
      have hwork : Tracing p (b.phis.foldl (mergePhi n) (s₁, false)).1 a.1 := by
        refine (foldlM_passes (R := fun a a' : Progress × Bool => Tracing p a.1 a'.1)
          (fun _ => Tracing.refl _) (fun _ _ _ => Tracing.trans) ?_ hfold).1
        intro a₁ ins a₂ hins h₁ hex
        exact tracing_execute ((hmerge.trans h₁).graph.nodes n x hx) hreq hins hex
      have ha := (hmerge.trans hwork).traced h₁
      rw [requeue]
      split
      · exact ⟨ha.origin, ha.fetched, ha.supplied⟩
      · exact ha

/-! ### Seeding -/

theorem origin_of_mem_seeds {h : Hierarchy} {t : TypeName} {o : Instance} {g : CallGraph}
    (ho : o ∈ seeds h t) : Origin p g o := by
  obtain ⟨-, c, -, rfl⟩ := mem_seeds.mp ho
  exact .outside _

theorem origin_of_mem_entryReceivers {h : Hierarchy} {entry : MethodRef} {g : CallGraph}
    {r : Instance} (hr : some r ∈ entryReceivers h entry b.isStatic) : Origin p g r := by
  cases mem_entryReceivers.mp hr with
  | object _ ho => exact origin_of_mem_seeds (mem_seeds.mpr ho)

/-- Whatever fills the parameters of an entry point comes from outside. -/
theorem origin_of_mem_entryArgument {h : Hierarchy} {entry : MethodRef} {g : CallGraph}
    {receiver : Option Instance} (hr : receiver ∈ entryReceivers h entry b.isStatic) {j : Nat}
    {o : Instance} (ho : o ∈ entryArgument h entry receiver b.isStatic j) : Origin p g o := by
  rw [entryArgument] at ho
  by_cases hself : j = 0 ∧ b.isStatic = false
  · rw [if_pos hself, Option.mem_toList] at ho
    cases ho
    exact origin_of_mem_entryReceivers hr
  · rw [if_neg hself] at ho
    rcases ht : (if b.isStatic then entry.parameterTypes
      else entry.declaringClass.name :: entry.parameterTypes)[j]? with _ | t
    · simp [ht] at ho
    · simp only [ht] at ho
      exact origin_of_mem_seeds ho

theorem tracing_seedNode {s : Progress} {entry : MethodRef × Nat} {receiver : Option Instance}
    (hbody : p.provider.request entry.1 = .ok (some b)) (hb : b ∈ s.bodies)
    (hr : receiver ∈ entryReceivers p.hierarchy entry.1 b.isStatic) :
    Tracing p s (seedNode p (entrySite entry b) b s receiver) := by
  have hle := (seedNode_sown (p := p) (entrySite entry b) b s receiver).1.graph
  refine ⟨hle, ?_⟩
  intro h
  refine ⟨?_, h.fetched, ?_⟩
  · -- Each parameter is filled with objects from outside.
    have hfill : ∀ m, ∀ o ∈ (fillParams p (entrySite entry b) b receiver m
        s.pointsTo).instances, Origin p (seedNode p (entrySite entry b) b s receiver).graph o := by
      intro m
      refine (foldl_passes (R := fun pts pts' : PointsTo =>
        (∀ o ∈ pts.instances, Origin p (seedNode p (entrySite entry b) b s receiver).graph o) →
        ∀ o ∈ pts'.instances, Origin p (seedNode p (entrySite entry b) b s receiver).graph o)
        (fun _ => id) (fun _ _ _ h₁ h₂ => h₂ ∘ h₁) s.pointsTo ?_).1
        (fun o ho => (h.origin o ho).mono hle)
      rintro pts ⟨v, j⟩ - - hpts o ho
      rcases PointsTo.mem_instances_insertAll ho with hold | hnew
      · exact hpts o hold
      · exact origin_of_mem_entryArgument hr hnew
    exact hfill _
  · intro k y c hy hc
    rw [seedNode_eq] at hy
    have hy' : (s.graph.insertNode (entryNode p (entrySite entry b) receiver)).2.node? k =
        some y := by
      rw [← CallGraph.node?_insertEntrypoint _ _, ← CallGraph.node?_insertEdge]
      exact hy
    rcases CallGraph.node?_insertNode hy' with hold | ⟨-, -, rfl⟩
    · exact h.supplied k y c hold hc
    · have hc' : p.provider.request entry.1 = .ok (some c) := hc
      rw [hbody] at hc'
      cases hc'
      exact Or.inr hb

theorem traced_seedEntry {s s' : Progress} {entry : MethodRef × Nat} (h : s.Traced p)
    (hseed : seedEntry p s entry = .ok s') : s'.Traced p := by
  rw [seedEntry, bind_eq_ok] at hseed
  obtain ⟨⟨body?, s₁⟩, hfetch, hrest⟩ := hseed
  have h₁ : s₁.Traced p := h.fetch_same hfetch
  have hreq := (fetch_eq_ok hfetch).1
  rcases body? with _ | b
  · cases hrest
  · have hb : b ∈ s₁.bodies := (mem_bodies_fetch hfetch).mpr (Or.inl rfl)
    cases hrest
    refine ((foldl_passes (R := fun s s' : Progress => s'.bodies = s.bodies ∧ Tracing p s s')
      (fun _ => ⟨rfl, Tracing.refl _⟩)
      (fun _ _ _ h₁ h₂ => ⟨h₂.1.trans h₁.1, h₁.2.trans h₂.2⟩) s₁ ?_).1).2.traced h₁
    intro s₂ receiver hr h₂
    refine ⟨rfl, tracing_seedNode hreq ?_ hr⟩
    rw [h₂.1]
    exact hb

theorem traced_start : Progress.start.Traced p := by
  refine ⟨?_, ?_, ?_⟩
  · intro o ho
    obtain ⟨c, hc, -⟩ := PointsTo.mem_instances.mp ho
    cases hc
  · intro b hb
    cases hb
  · intro n x b hx _
    have hlt : n < 1 := CallGraph.node?_lt hx
    exact Or.inl (Nat.lt_one_iff.mp hlt)

/-! ### Built call graphs -/

theorem traced_of_build {entrypoints : List MethodRef} {monitor : Monitor} {g : BuiltGraph}
    (h : (build p entrypoints monitor).result = .ok g) :
    ∃ s : Progress, s.Traced p ∧ g = ⟨s.graph, s.pointsTo, s.bodies, p.depth⟩ := by
  obtain ⟨s₀, s, hseed, hreach, -, hg⟩ := reaches_of_build h
  have hs₀ : s₀.Traced p :=
    (foldlM_passes (R := fun s s' : Progress => s.Traced p → s'.Traced p) (fun _ => id)
      (fun _ _ _ h₁ h₂ => h₂ ∘ h₁) (fun _ _ _ _ _ hstep hs => traced_seedEntry hs hstep)
      hseed).1 traced_start
  refine ⟨s, hreach.preserves ?_ hs₀, hg⟩
  intro s n t s' hs htake hproc
  obtain ⟨rest, -, rfl⟩ := take?_eq_some htake
  exact traced_process (s := { s with queue := rest }) ⟨hs.origin, hs.fetched, hs.supplied⟩ hproc

theorem origin_of_build {entrypoints : List MethodRef} {monitor : Monitor} {g : BuiltGraph}
    (h : (build p entrypoints monitor).result = .ok g) {o : Instance}
    (ho : o ∈ g.pointsTo.instances) : Origin p g.graph o := by
  obtain ⟨s, hs, rfl⟩ := traced_of_build h
  exact hs.origin o ho

/-- In a built call graph every node but the root has the body that the provider has for it. -/
theorem body?_of_build {entrypoints : List MethodRef} {monitor : Monitor} {g : BuiltGraph}
    (h : (build p entrypoints monitor).result = .ok g) (hx : g.graph.node? n = some x)
    (hn : n ≠ CallGraph.root) (hb : p.provider.request x.method = .ok (some b)) :
    g.body? n = some b := by
  obtain ⟨s, hs, rfl⟩ := traced_of_build h
  have hmem : b ∈ s.bodies := (hs.supplied n x b hx hb).resolve_left hn
  rw [BuiltGraph.body?, hx, Option.bind_some]
  show s.bodies.find? (fun c => c.method = x.method) = some b
  rcases hfind : s.bodies.find? fun c => c.method = x.method with _ | c
  · rw [List.find?_eq_none] at hfind
    exact absurd (decide_eq_true (p.provider.own _ b hb)) (hfind b hmem)
  · -- Whatever is found is the provider's answer for the same method.
    have hm : c.method = x.method := by simpa using List.find?_some hfind
    have hc := hs.fetched c (List.mem_of_find?_eq_some hfind)
    rw [hm, hb] at hc
    cases hc
    exact hfind

theorem request_of_body? {entrypoints : List MethodRef} {monitor : Monitor} {g : BuiltGraph}
    (h : (build p entrypoints monitor).result = .ok g) (hx : g.graph.node? n = some x)
    (hb : g.body? n = some b) : p.provider.request x.method = .ok (some b) := by
  obtain ⟨s, hs, rfl⟩ := traced_of_build h
  rw [BuiltGraph.body?, hx, Option.bind_some] at hb
  have hm : b.method = x.method := by simpa using List.find?_some hb
  rw [← hm]
  exact hs.fetched b (List.mem_of_find?_eq_some hb)

end Construction
end StreamVerdict
