/-
  Why nodes are queued.

  Nothing is queued without a reason: a node is queued when it is new, or when a set has grown.
  Every operation of a construction leaves the queue as it is, or the construction knows more
  than before.  And the queue stays tidy: it holds nodes of the graph, each once.
-/
import StreamVerdict.Proofs.CallGraph.Grounded

namespace StreamVerdict
namespace Construction

/-! ### Growth -/

/-- Something is there that was not there before: a node, or an object in a set. -/
def Grown (s s' : Progress) : Prop :=
  (∃ n x, s'.graph.node? n = some x ∧ s.graph.node? n = none) ∨
    ∃ n v o, o ∈ s'.pointsTo.get n v ∧ o ∉ s.pointsTo.get n v

/-- What has grown in between has grown on the whole. -/
theorem Grown.widen {s₀ s s' s₁ : Progress} (h : Grown s s') (hg₀ : s₀.graph ≤ s.graph)
    (hp₀ : s₀.pointsTo ≤ s.pointsTo) (hg₁ : s'.graph ≤ s₁.graph)
    (hp₁ : s'.pointsTo ≤ s₁.pointsTo) : Grown s₀ s₁ := by
  rcases h with ⟨n, x, hx, hnone⟩ | ⟨n, v, o, ho, hnot⟩
  · refine Or.inl ⟨n, x, hg₁.nodes n x hx, ?_⟩
    rcases hy : s₀.graph.node? n with _ | y
    · rfl
    · rw [hg₀.nodes n y hy] at hnone
      cases hnone
  · exact Or.inr ⟨n, v, o, hp₁ n v o ho, fun hold => hnot (hp₀ n v o hold)⟩

/-- A flow that reports growth has brought an object. -/
theorem grown_flow {s : Progress} {n : Nat} {v : ValueNumber} {is : List Instance}
    (h : (s.flow n v is).2 = true) : Grown s (s.flow n v is).1 := by
  obtain ⟨o, ho, hnot⟩ := List.any_eq_true.mp h
  exact Or.inr ⟨n, v, o, mem_flow.mpr (Or.inr ⟨rfl, rfl, ho⟩), of_decide_eq_true hnot⟩

/-- The queue holds nodes of the graph, each once. -/
structure Progress.Tidy (s : Progress) : Prop where
  nodup : s.queue.Nodup
  nodes : ∀ m ∈ s.queue, ∃ x, s.graph.node? m = some x

theorem Progress.Tidy.mono {s s' : Progress} (h : s.Tidy) (hg : s.graph ≤ s'.graph)
    (hqueue : s'.queue = s.queue) : s'.Tidy := by
  refine ⟨?_, ?_⟩
  · rw [hqueue]
    exact h.nodup
  · intro m hm
    rw [hqueue] at hm
    obtain ⟨y, hy⟩ := h.nodes m hm
    exact ⟨y, hg.nodes m y hy⟩

/-- A node of the graph may be queued while the graph grows. -/
theorem Progress.Tidy.enqueue {s s' : Progress} (h : s.Tidy) (hg : s.graph ≤ s'.graph) {n : Nat}
    {x : Node} (hx : s'.graph.node? n = some x)
    (hqueue : s'.queue = Worklist.enqueue s.queue n) : s'.Tidy := by
  refine ⟨?_, ?_⟩
  · rw [hqueue]
    exact Worklist.nodup_enqueue h.nodup n
  · intro m hm
    rw [hqueue, Worklist.mem_enqueue] at hm
    rcases hm with hold | rfl
    · obtain ⟨y, hy⟩ := h.nodes m hold
      exact ⟨y, hg.nodes m y hy⟩
    · exact ⟨x, hx⟩

/-- Every change of the queue and of the flag is warranted by growth. -/
structure Warranted (a a' : Progress × Bool) : Prop where
  graph : a.1.graph ≤ a'.1.graph
  pointsTo : a.1.pointsTo ≤ a'.1.pointsTo
  queue : a'.1.queue = a.1.queue ∨ Grown a.1 a'.1
  changed : a'.2 = true → a.2 = true ∨ Grown a.1 a'.1
  tidy : a.1.Tidy → a'.1.Tidy

namespace Warranted

theorem refl (a : Progress × Bool) : Warranted a a :=
  ⟨CallGraph.le_refl _, PointsTo.le_refl _, Or.inl rfl, Or.inl, id⟩

theorem trans {a a' a'' : Progress × Bool} (h : Warranted a a') (h' : Warranted a' a'') :
    Warranted a a'' := by
  -- Growth in either part is growth on the whole.
  have hfirst : Grown a.1 a'.1 → Grown a.1 a''.1 := fun hgrown =>
    hgrown.widen (CallGraph.le_refl _) (PointsTo.le_refl _) h'.graph h'.pointsTo
  have hsecond : Grown a'.1 a''.1 → Grown a.1 a''.1 := fun hgrown =>
    hgrown.widen h.graph h.pointsTo (CallGraph.le_refl _) (PointsTo.le_refl _)
  refine ⟨CallGraph.le_trans h.graph h'.graph, PointsTo.le_trans h.pointsTo h'.pointsTo, ?_, ?_,
    fun ha => h'.tidy (h.tidy ha)⟩
  · rcases h'.queue with hsame' | hgrown'
    · rcases h.queue with hsame | hgrown
      · exact Or.inl (hsame'.trans hsame)
      · exact Or.inr (hfirst hgrown)
    · exact Or.inr (hsecond hgrown')
  · intro hflag
    rcases h'.changed hflag with hflag' | hgrown'
    · exact (h.changed hflag').imp_right hfirst
    · exact Or.inr (hsecond hgrown')

/-- A flow into any set is warranted. -/
theorem flow (s : Progress) (c : Bool) (n : Nat) (v : ValueNumber) (is : List Instance) :
    Warranted (s, c) ((s.flow n v is).1, c || (s.flow n v is).2) := by
  refine ⟨CallGraph.le_refl _, PointsTo.le_insertAll _ _ _ _, Or.inl rfl, ?_, fun h => ⟨h.1, h.2⟩⟩
  intro hflag
  rcases Bool.or_eq_true_iff.mp hflag with hc | hgrew
  · exact Or.inl hc
  · exact Or.inr (grown_flow hgrew)

end Warranted

/-! ### Processing a node -/

variable {p : Plan} {entrypoints : List MethodRef} {n : Nat} {x : Node}

theorem warranted_bindParams (s : Progress) (caller callee : Nat) (args : List ValueNumber)
    (receiver : Option Instance) (b : Body) :
    Warranted (s, false) (bindParams s caller callee args receiver b) :=
  (foldl_passes Warranted.refl (fun _ _ _ => Warranted.trans)
    (f := bindParam caller callee args receiver b) (l := b.params.zipIdx) (s, false)
    (fun a param _ _ => Warranted.flow a.1 a.2 callee param.1 _)).1

/-- Passing the arguments of a call queues the called node at most, and only if it is new or one
    of its sets has grown. -/
theorem deliver_queue (s : Progress) (caller callee : Nat) (isNew : Bool) (args : List ValueNumber)
    (receiver : Option Instance) (b : Body) :
    let s' := deliver s caller callee isNew args receiver b
    s'.queue = s.queue ∨
      (s'.queue = Worklist.enqueue s.queue callee ∧ (isNew = true ∨ Grown s s')) := by
  have hbound := warranted_bindParams s caller callee args receiver b
  have hqueue := (bindParams_bound s caller callee args receiver b).1.queue
  generalize hr : bindParams s caller callee args receiver b = r at hbound hqueue
  rw [deliver, hr]
  by_cases hq : (isNew || r.2) = true
  · rw [if_pos hq]
    refine Or.inr ⟨congrArg (Worklist.enqueue · callee) hqueue, ?_⟩
    rcases Bool.or_eq_true_iff.mp hq with hnew | hgrew
    · exact Or.inl hnew
    · exact Or.inr ((hbound.changed hgrew).resolve_left Bool.false_ne_true)
  · rw [if_neg hq]
    exact Or.inl hqueue

theorem warranted_bringBack (s : Progress) (changed : Bool) (n callee : Nat)
    (result : Option ValueNumber) (c : Body) :
    Warranted (s, changed) (bringBack s changed n callee result c) := by
  rcases result with _ | v
  · exact Warranted.refl _
  · exact Warranted.flow s changed n v _

theorem warranted_follow {result : Option ValueNumber} {args : List ValueNumber} {site : CallSite}
    {a a' : Progress × Bool} {t : MethodRef × Option Instance}
    (h : follow p n x result args site a t = .ok a') : Warranted a a' := by
  obtain ⟨s, callee, isNew, hgraph, hpointsTo, hqueue, hcallee, hnew, hcases⟩ := follow_cases h
  have hg : a.1.graph ≤ s.graph := by
    rw [hgraph]
    exact link_graph_le _ _ _ _
  have hp : a.1.pointsTo ≤ s.pointsTo := PointsTo.le_of_eq hpointsTo.symm
  rcases hcases with ⟨-, rfl⟩ | ⟨c, -, rfl⟩
  · exact ⟨hg, hp, Or.inl hqueue, Or.inl, fun ha => ha.mono hg hqueue⟩
  · obtain ⟨hdg, hdp, -⟩ := deliver_spec s n callee isNew args t.2 c
    have hdq := deliver_queue s n callee isNew args t.2 c
    generalize deliver s n callee isNew args t.2 c = s' at hdg hdp hdq ⊢
    rw [← hdg] at hg hcallee
    rw [hqueue] at hdq
    -- What comes back flows into a set; what remains is to pass the arguments.
    suffices hmid : Warranted a (s', a.2) from hmid.trans (warranted_bringBack _ _ _ _ _ _)
    refine ⟨hg, PointsTo.le_trans hp hdp, ?_, Or.inl, ?_⟩
    · rcases hdq with hsame | ⟨-, hisNew | hgrown⟩
      · exact Or.inl hsame
      · exact Or.inr (Or.inl ⟨callee, _, hcallee, hnew hisNew⟩)
      · refine Or.inr (hgrown.widen ?_ hp (CallGraph.le_refl _) (PointsTo.le_refl _))
        rw [← hdg]
        exact hg
    · intro ha
      rcases hdq with hsame | ⟨hqueued, -⟩
      · exact ha.mono hg hsame
      · exact ha.enqueue hg hcallee hqueued

theorem warranted_execute {a a' : Progress × Bool} {ins : Instruction}
    (h : execute p n x a ins = .ok a') : Warranted a a' := by
  cases ins with
  | new i v site line =>
      cases h
      exact Warranted.flow a.1 a.2 n v _
  | invoke i result args site line =>
      exact (foldlM_passes Warranted.refl (fun _ _ _ => Warranted.trans)
        (fun _ _ _ _ _ hfollow => warranted_follow hfollow) h).1
  | ret i v line =>
      cases h
      exact Warranted.refl a

/-- What is queued again at the end are nodes of the graph. -/
theorem tidy_requeue {a : Progress × Bool} (h : a.1.Tidy) (hx : a.1.graph.node? n = some x)
    (hedges : ∀ e ∈ a.1.graph.edges, ∃ y, a.1.graph.node? e.caller = some y) :
    (requeue n a).Tidy := by
  rw [requeue]
  by_cases hc : a.2 = true
  · rw [if_pos hc]
    refine ⟨Worklist.nodup_enqueueAll (Worklist.nodup_enqueue h.nodup n) _, ?_⟩
    intro m hm
    rcases Worklist.mem_enqueueAll.mp hm with hm | hcaller
    · rcases Worklist.mem_enqueue.mp hm with hold | rfl
      · exact h.nodes m hold
      · exact ⟨x, hx⟩
    · obtain ⟨site, he⟩ := CallGraph.mem_callers.mp hcaller
      exact hedges _ he
  · rw [if_neg hc]
    exact h

/-- Processing a node leaves the queue as it is, or something has grown. -/
theorem queue_of_process {s s' : Progress} (hgrounded : s.Grounded p entrypoints)
    (hproc : process p n s = .ok s') :
    (s'.queue = s.queue ∨ Grown s s') ∧ (s.Tidy → s'.Tidy) := by
  have hgrounded' := grounded_process hgrounded hproc
  rcases process_eq_ok hproc with ⟨-, rfl⟩ | ⟨x, body?, s₁, hx, hfetch, hrest⟩
  · exact ⟨Or.inl rfl, id⟩
  · obtain ⟨-, hgraph, hpts, hqueue⟩ := fetch_eq_ok hfetch
    have hfetched : Warranted (s, false) (s₁, false) := by
      have hg : s.graph ≤ s₁.graph := CallGraph.le_of_eq hgraph.symm
      exact ⟨hg, PointsTo.le_of_eq hpts.symm, Or.inl hqueue, Or.inl, fun hs => hs.mono hg hqueue⟩
    rcases body? with _ | b
    · have hrest' : s' = s₁ := hrest
      rw [hrest']
      exact ⟨Or.inl hqueue, hfetched.tidy⟩
    · obtain ⟨a, hfold, rfl⟩ := hrest
      have hmerge := (foldl_passes Warranted.refl (fun _ _ _ => Warranted.trans)
        (f := mergePhi n) (l := b.phis) (s₁, false)
        fun a₁ phi _ _ => Warranted.flow a₁.1 a₁.2 n phi.result _).1
      have hwork := (foldlM_passes Warranted.refl (fun _ _ _ => Warranted.trans)
        (fun _ _ _ _ _ hex => warranted_execute hex) hfold).1
      have hall := hfetched.trans (hmerge.trans hwork)
      obtain ⟨hg, hp, -, -⟩ := requeue_spec n a
      refine ⟨?_, ?_⟩
      · by_cases hc : a.2 = true
        · -- The flag was down at the start, so it was raised by growth.
          have hgrown := (hall.changed hc).resolve_left Bool.false_ne_true
          exact Or.inr (hgrown.widen (CallGraph.le_refl _) (PointsTo.le_refl _)
            (CallGraph.le_of_eq hg.symm) (PointsTo.le_of_eq hp.symm))
        · rw [requeue, if_neg hc]
          exact hall.queue
      · intro hs
        refine tidy_requeue (hall.tidy hs) (hall.graph.nodes n x hx) ?_
        -- Callers are in the graph, because every edge could be derived.
        intro e he
        rw [← hg] at he ⊢
        obtain ⟨y, -, hy, -, -⟩ := hgrounded'.edge e he
        exact ⟨y, hy⟩

/-! ### Seeding -/

theorem tidy_seedNode {s : Progress} (h : s.Tidy) (site : CallSite) (b : Body)
    (receiver : Option Instance) : (seedNode p site b s receiver).Tidy := by
  refine h.enqueue (seedNode_sown site b s receiver).1.graph
    (n := (s.graph.insertNode (entryNode p site receiver)).1) (x := entryNode p site receiver) ?_
    rfl
  rw [seedNode_eq]
  show (((s.graph.insertNode _).2.insertEntrypoint _).insertEdge _).node? _ = _
  rw [CallGraph.node?_insertEdge, CallGraph.node?_insertEntrypoint]
  exact CallGraph.node?_insertNode_self _ _

theorem tidy_seedEntry {s s' : Progress} {entry : MethodRef × Nat} (hs : s.Tidy)
    (h : seedEntry p s entry = .ok s') : s'.Tidy := by
  rw [seedEntry, bind_eq_ok] at h
  obtain ⟨⟨body?, s₁⟩, hfetch, hrest⟩ := h
  obtain ⟨-, hgraph, -, hqueue⟩ := fetch_eq_ok hfetch
  have hs₁ : s₁.Tidy := hs.mono (CallGraph.le_of_eq hgraph.symm) hqueue
  rcases body? with _ | b
  · cases hrest
  · cases hrest
    exact (foldl_passes (R := fun s s' : Progress => s.Tidy → s'.Tidy) (fun _ => id)
      (fun _ _ _ h₁ h₂ => h₂ ∘ h₁) s₁ (fun s₂ r _ _ hs₂ => tidy_seedNode hs₂ _ b r)).1 hs₁

theorem tidy_of_seeding {s : Progress}
    (h : entrypoints.zipIdx.foldlM (seedEntry p) Progress.start = .ok s) : s.Tidy := by
  have hstart : Progress.start.Tidy :=
    ⟨List.nodup_nil, fun m hm => absurd hm List.not_mem_nil⟩
  exact (foldlM_passes (R := fun s s' : Progress => s.Tidy → s'.Tidy) (fun _ => id)
    (fun _ _ _ h₁ h₂ => h₂ ∘ h₁) (fun _ _ _ _ _ hseed hs => tidy_seedEntry hs hseed) h).1 hstart

end Construction
end StreamVerdict
