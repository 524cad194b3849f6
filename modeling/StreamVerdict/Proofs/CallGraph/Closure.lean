/-
  A settled construction is closed.

  A node is closed if processing it again would change nothing: its merges are copied, its
  allocations are in place, and its calls are followed to every target that the points-to
  sets now give them.  The invariant of the construction is that every node with a body is
  closed or queued; the root stands apart until it is processed for the first time, because it
  is never queued on its own account.  So when the queue is empty, every node is closed.
-/
import StreamVerdict.Proofs.CallGraph.Growth

namespace StreamVerdict
namespace Construction

/-! ### Calls that have been followed -/

/-- The call has been followed to the target `t`.  Its node and the edge to it are in the
    graph; if it has a body, its parameters hold what the call passes with the sets `src`, and
    the result of the call holds what the node returns.  Of a returned parameter only what
    this call passes is known to come back. -/
def Followed (p : Plan) (g : CallGraph) (src pts : PointsTo) (n : Nat) (x : Node)
    (result : Option ValueNumber) (args : List ValueNumber) (site : CallSite)
    (t : MethodRef × Option Instance) : Prop :=
  ∃ c, g.node? c = some (calledNode p x site t) ∧ ⟨n, site, c⟩ ∈ g.edges ∧
    ∀ b, p.provider.request t.1 = .ok (some b) →
      (∀ i v, b.params[i]? = some v → ∀ o ∈ passed src n args t.2 b.isStatic i,
        o ∈ pts.get c v) ∧
      (∀ d, result = some d → ∀ w ∈ b.returnValues, ∀ o ∈ pts.get c w, w ∉ b.params →
        o ∈ pts.get n d) ∧
      (∀ d, result = some d → ∀ i w, b.params[i]? = some w → w ∈ b.returnValues →
        ∀ o ∈ passed src n args t.2 b.isStatic i, o ∈ pts.get n d)

variable {p : Plan} {n : Nat} {x : Node} {result : Option ValueNumber} {args : List ValueNumber}
  {site : CallSite} {t : MethodRef × Option Instance}

/-- A followed call stays followed while everything grows, if the calling node reads no more
    than before and the called node returns no more than before. -/
theorem Followed.mono {g g' : CallGraph} {src src' pts pts' : PointsTo}
    (h : Followed p g src pts n x result args site t) (hg : g ≤ g') (hpts : pts ≤ pts')
    (hsrc : ∀ v, src'.get n v ⊆ src.get n v)
    (hret : ∀ c b w o, ⟨n, site, c⟩ ∈ g.edges → g.node? c = some (calledNode p x site t) →
      p.provider.request t.1 = .ok (some b) → w ∉ b.params → o ∈ pts'.get c w → o ∈ pts.get c w) :
    Followed p g' src' pts' n x result args site t := by
  obtain ⟨c, hc, he, hbody⟩ := h
  refine ⟨c, hg.nodes _ _ hc, hg.edges _ he, ?_⟩
  intro b hb
  obtain ⟨hparams, hreturns, hround⟩ := hbody b hb
  refine ⟨?_, ?_, ?_⟩
  · intro i v hi o ho
    exact hpts _ _ o (hparams i v hi o (passed_mono hsrc ho))
  · intro d hd w hw o ho hnot
    exact hpts _ _ o (hreturns d hd w hw o (hret c b w o he hc hb hnot ho) hnot)
  · intro d hd i w hi hw o ho
    exact hpts _ _ o (hround d hd i w hi hw o (passed_mono hsrc ho))

/-- Following a call makes it a followed one. -/
theorem followed_of_follow {a a' : Progress × Bool}
    (h : follow p n x result args site a t = .ok a') :
    Followed p a'.1.graph a.1.pointsTo a'.1.pointsTo n x result args site t := by
  obtain ⟨body?, s, hfetch, hrest⟩ := follow_eq_ok h
  obtain ⟨hreq, hgraph, hpointsTo, -⟩ := fetch_eq_ok hfetch
  have hself := node?_link_self a.1 n site (calledNode p x site t)
  have hedge := edge_mem_link a.1 n site (calledNode p x site t)
  rw [← hgraph] at hself hedge
  generalize (a.1.graph.insertNode (calledNode p x site t)).1 = c at hself hedge hrest
  rcases body? with _ | b
  · -- Without a body nothing is passed and nothing comes back.
    have hrest' : a' = (s, a.2) := hrest
    rw [hrest']
    refine ⟨c, hself, hedge, ?_⟩
    intro b hb
    rw [hreq] at hb
    cases hb
  · generalize (a.1.graph.find? (calledNode p x site t)).isNone = isNew at hrest
    have hrest' : a' = bringBack (deliver s n c isNew args t.2 b) a.2 n c result b := hrest
    obtain ⟨hg, -, -, -, -, hparams⟩ := deliver_spec s n c isNew args t.2 b
    have hback := bringBack_advance (p := p) (x := x) (b := b) (n := n)
      (deliver s n c isNew args t.2 b) a.2 c result b
    rw [show s.pointsTo = a.1.pointsTo from hpointsTo] at hparams
    refine ⟨c, ?_, ?_, ?_⟩
    · rw [hrest', bringBack_graph, hg]
      exact hself
    · rw [hrest', bringBack_graph, hg]
      exact hedge
    · intro b' hb'
      rw [hreq] at hb'
      cases hb'
      have harrive : ∀ i v, b.params[i]? = some v →
          ∀ o ∈ passed a.1.pointsTo n args t.2 b.isStatic i, o ∈ a'.1.pointsTo.get c v := by
        intro i v hi o ho
        rw [hrest']
        exact hback.pointsTo c v o (hparams i v hi o ho)
      have hreturn : ∀ d, result = some d → ∀ w ∈ b.returnValues,
          ∀ o ∈ a'.1.pointsTo.get c w, o ∈ a'.1.pointsTo.get n d := by
        intro d hd w hw o ho
        rw [hrest', hd] at ho ⊢
        exact mem_bringBack hw ho
      -- A parameter that is returned hands back what has just arrived in it.
      refine ⟨harrive, fun d hd w hw o ho _ => hreturn d hd w hw o ho, ?_⟩
      intro d hd i w hi hw o ho
      exact hreturn d hd w hw o (harrive i w hi o ho)

/-- While the calling node goes on without growth of its own sets, a followed call stays
    followed. -/
theorem Followed.advance {b : Body} {src : PointsTo} {a a' : Progress × Bool}
    (h : Followed p a.1.graph src a.1.pointsTo n x result args site t)
    (hadv : Advance p n x b a a') (hquiet : a'.2 = false) :
    Followed p a'.1.graph src a'.1.pointsTo n x result args site t := by
  refine h.mono hadv.graph hadv.pointsTo (fun _ => OrdSet.Subset.refl _) ?_
  intro c bc w o _ hc hbc hnot ho
  rcases hadv.grown c w o ho with hold | ⟨-, hchanged⟩ | ⟨-, y, bc', hy, hbc', hw⟩
  · exact hold
  · rw [hquiet] at hchanged
    cases hchanged
  · -- A set of another node grew, hence a parameter, and those are left out.
    rw [hadv.graph.nodes c _ hc] at hy
    cases hy
    rw [show (calledNode p x site t).method = t.1 from rfl, hbc] at hbc'
    cases hbc'
    exact absurd hw hnot

/-! ### Instructions -/

theorem mergePhi_advance {b : Body} (a : Progress × Bool) (phi : Phi) :
    Advance p n x b a (mergePhi n a phi) :=
  Advance.flow a.1 a.2 phi.result _

theorem execute_advance {b : Body} {a a' : Progress × Bool} {ins : Instruction}
    (hins : ins ∈ b.instructions) (h : execute p n x a ins = .ok a') : Advance p n x b a a' := by
  cases ins with
  | new i v site line =>
      cases h
      exact Advance.flow a.1 a.2 v _
  | invoke i result args site line =>
      refine (foldlM_passes Advance.refl (fun _ _ _ => Advance.trans) ?_ h).1
      intro a₁ t a₂ ht h₁ hfollow
      exact follow_advance hins ht h₁.pointsTo hfollow
  | ret i v line =>
      cases h
      exact Advance.refl a

/-- A call that was executed without growth of the node's own sets is followed to every
    target. -/
theorem followed_of_execute {b : Body} {a a' : Progress × Bool} {i : Nat} {line : UInt32}
    (hins : Instruction.invoke i result args site line ∈ b.instructions)
    (h : execute p n x a (.invoke i result args site line) = .ok a') (hquiet : a'.2 = false)
    (ht : t ∈ targets p a.1.pointsTo n args site) :
    Followed p a'.1.graph a.1.pointsTo a'.1.pointsTo n x result args site t := by
  have hpass := (foldlM_passes Advance.refl (fun _ _ _ => Advance.trans)
    (fun a₁ t a₂ ht (h₁ : Advance p n x b a a₁) hfollow =>
      follow_advance hins ht h₁.pointsTo hfollow) h).2
  -- The target was followed at some point of the execution, and has stayed followed since.
  obtain ⟨a₁, a₂, h₁, hfollow, h₂⟩ := hpass t ht
  have hsrc : ∀ v, a.1.pointsTo.get n v ⊆ a₁.1.pointsTo.get n v := h₁.pointsTo n
  have hlast := (followed_of_follow hfollow).advance h₂ hquiet
  exact hlast.mono (CallGraph.le_refl _) (PointsTo.le_refl _) hsrc (fun _ _ _ _ _ _ _ _ ho => ho)

/-! ### Closed nodes -/

/-- Processing the node again would change nothing. -/
structure Closed (p : Plan) (g : CallGraph) (pts : PointsTo) (n : Nat) (x : Node) (b : Body) :
    Prop where
  phis : ∀ phi ∈ b.phis, ∀ u ∈ phi.uses, pts.get n u ⊆ pts.get n phi.result
  allocations : ∀ i v site line, Instruction.new i v site line ∈ b.instructions →
    Instance.allocated x.method site x.context.callString ∈ pts.get n v
  calls : ∀ i result args site line, Instruction.invoke i result args site line ∈ b.instructions →
    ∀ t ∈ targets p pts n args site, Followed p g pts pts n x result args site t

/-- A closed node stays closed while everything grows, if its own sets do not grow and the
    nodes that it calls return no more than before. -/
theorem Closed.mono {b : Body} {g g' : CallGraph} {pts pts' : PointsTo}
    (h : Closed p g pts n x b) (hg : g ≤ g') (hpts : pts ≤ pts')
    (hown : ∀ v, pts'.get n v ⊆ pts.get n v)
    (hret : ∀ site c y bc w o, ⟨n, site, c⟩ ∈ g.edges → g.node? c = some y →
      p.provider.request y.method = .ok (some bc) → w ∉ bc.params → o ∈ pts'.get c w →
      o ∈ pts.get c w) :
    Closed p g' pts' n x b where
  phis phi hphi u hu o ho := hpts _ _ o (h.phis phi hphi u hu o (hown u o ho))
  allocations i v site line hins := hpts _ _ _ (h.allocations i v site line hins)
  calls i result args site line hins t ht := by
    have ht' : t ∈ targets p pts n args site :=
      (mem_targets_congr fun v o => ⟨hown v o, hpts n v o⟩).mp ht
    refine (h.calls i result args site line hins t ht').mono hg hpts hown ?_
    intro c bc w o he hc hbc hnot ho
    exact hret site c _ bc w o he hc hbc hnot ho

/-- What is queued at the end of the processing of a node whose sets may have grown. -/
def requeue (n : Nat) (a : Progress × Bool) : Progress :=
  if a.2 then (a.1.enqueue n).enqueueAll (a.1.graph.callers n) else a.1

theorem requeue_spec (n : Nat) (a : Progress × Bool) :
    (requeue n a).graph = a.1.graph ∧ (requeue n a).pointsTo = a.1.pointsTo ∧
    (∀ m, m ∈ a.1.queue → m ∈ (requeue n a).queue) ∧
    (a.2 = true → n ∈ (requeue n a).queue ∧
      ∀ m, m ∈ a.1.graph.callers n → m ∈ (requeue n a).queue) := by
  rw [requeue]
  by_cases hc : a.2 = true
  · rw [if_pos hc]
    have hmem : ∀ m, m ∈ ((a.1.enqueue n).enqueueAll (a.1.graph.callers n)).queue ↔
        (m ∈ a.1.queue ∨ m = n) ∨ m ∈ a.1.graph.callers n := by
      intro m
      rw [Progress.enqueueAll, Worklist.mem_enqueueAll, Progress.enqueue, Worklist.mem_enqueue]
    refine ⟨rfl, rfl, ?_, ?_⟩
    · intro m hm
      exact (hmem m).mpr (Or.inl (Or.inl hm))
    · intro _
      exact ⟨(hmem n).mpr (Or.inl (Or.inr rfl)), fun m hm => (hmem m).mpr (Or.inr hm)⟩
  · rw [if_neg hc]
    exact ⟨rfl, rfl, fun m hm => hm, fun h => absurd h hc⟩

/-- Processing a node: it is asked for its body, and if there is one, merges are copied and
    instructions carried out. -/
theorem process_eq_ok {s s' : Progress} (h : process p n s = .ok s') :
    (s.graph.node? n = none ∧ s' = s) ∨
    ∃ x body? s₁, s.graph.node? n = some x ∧ fetch p x.method s = .ok (body?, s₁) ∧
      match body? with
      | none => s' = s₁
      | some b => ∃ a,
        b.instructions.foldlM (execute p n x) (b.phis.foldl (mergePhi n) (s₁, false)) = .ok a ∧
          s' = requeue n a := by
  rw [process] at h
  rcases hx : s.graph.node? n with _ | x
  · simp only [hx] at h
    cases h
    exact Or.inl ⟨rfl, rfl⟩
  · simp only [hx] at h
    obtain ⟨⟨body?, s₁⟩, hfetch, hrest⟩ := bind_eq_ok.mp h
    refine Or.inr ⟨x, body?, s₁, rfl, hfetch, ?_⟩
    rcases body? with _ | b
    · cases hrest
      rfl
    · obtain ⟨a, hfold, hlast⟩ := bind_eq_ok.mp hrest
      refine ⟨a, hfold, ?_⟩
      rw [requeue]
      rcases hc : a.2
      · simp only [hc] at hlast
        cases hlast
        rfl
      · simp only [hc] at hlast
        cases hlast
        rfl

/-- Working through a body is an advance of its node, and closes it unless its sets grew. -/
theorem advance_of_body {b : Body} {s : Progress} {a : Progress × Bool}
    (h : b.instructions.foldlM (execute p n x) (b.phis.foldl (mergePhi n) (s, false)) = .ok a) :
    Advance p n x b (s, false) a ∧
      (a.2 = false → n ∉ a.1.queue → Closed p a.1.graph a.1.pointsTo n x b) := by
  obtain ⟨hmerge, hphis⟩ := foldl_passes Advance.refl (fun _ _ _ => Advance.trans)
    (f := mergePhi n) (l := b.phis) (s, false)
    (fun a phi _ _ => mergePhi_advance (p := p) (x := x) (b := b) a phi)
  obtain ⟨hwork, hinstructions⟩ := foldlM_passes Advance.refl (fun _ _ _ => Advance.trans)
    (fun a₁ ins a₂ hins _ hex => execute_advance hins hex) h
  have hall : Advance p n x b (s, false) a := hmerge.trans hwork
  refine ⟨hall, ?_⟩
  intro hquiet hidle
  -- The node's own sets are the same from the beginning to the end.
  have hown : ∀ v, a.1.pointsTo.get n v ⊆ s.pointsTo.get n v := by
    intro v o ho
    rcases hall.grown n v o ho with hold | ⟨-, hchanged⟩ | ⟨hqueued, -⟩
    · exact hold
    · rw [hquiet] at hchanged
      cases hchanged
    · exact absurd hqueued hidle
  refine ⟨?_, ?_, ?_⟩
  · intro phi hphi u hu o ho
    obtain ⟨a₁, h₁, h₂⟩ := hphis phi hphi
    have hread : o ∈ a₁.1.pointsTo.union n phi.uses :=
      PointsTo.mem_union.mpr ⟨u, hu, h₁.pointsTo n u o (hown u o ho)⟩
    apply hwork.pointsTo
    apply h₂.pointsTo
    exact mem_flow.mpr (Or.inr ⟨rfl, rfl, hread⟩)
  · intro i v site line hins
    obtain ⟨a₁, a₂, h₁, hex, h₂⟩ := hinstructions _ hins
    cases hex
    apply h₂.pointsTo
    exact mem_flow.mpr (Or.inr ⟨rfl, rfl, List.mem_singleton.mpr rfl⟩)
  · intro i result args site line hins t ht
    obtain ⟨a₁, a₂, h₁, hex, h₂⟩ := hinstructions _ hins
    have h₁' : Advance p n x b (s, false) a₁ := hmerge.trans h₁
    have h₁₂ : Advance p n x b a₁ a := (execute_advance hins hex).trans h₂
    have hback : ∀ v, a.1.pointsTo.get n v ⊆ a₁.1.pointsTo.get n v :=
      fun v => OrdSet.Subset.trans (hown v) (h₁'.pointsTo n v)
    have hquiet₂ : a₂.2 = false := by
      rw [← Bool.not_eq_true]
      intro hc
      have hchanged := h₂.changed hc
      rw [hquiet] at hchanged
      cases hchanged
    -- So the targets at the end are those with which the call was executed.
    have ht' : t ∈ targets p a₁.1.pointsTo n args site :=
      (mem_targets_congr fun v o => ⟨hback v o, h₁₂.pointsTo n v o⟩).mp ht
    have hfollowed := (followed_of_execute hins hex hquiet₂ ht').advance h₂ hquiet
    exact hfollowed.mono (CallGraph.le_refl _) (PointsTo.le_refl _) hback
      (fun _ _ _ _ _ _ _ _ ho => ho)

/-- All that processing a node can do.  Either the node has no body, and only the record of
    requests changes; or it advances, and is closed unless its own sets grew. -/
theorem process_cases {s s' : Progress} (h : process p n s = .ok s') :
    (s'.graph = s.graph ∧ s'.pointsTo = s.pointsTo ∧ s'.queue = s.queue ∧
      ∀ x b, s.graph.node? n = some x → p.provider.request x.method ≠ .ok (some b)) ∨
    ∃ x b a, s.graph.node? n = some x ∧ p.provider.request x.method = .ok (some b) ∧
      Advance p n x b (s, false) a ∧
      (a.2 = false → n ∉ a.1.queue → Closed p a.1.graph a.1.pointsTo n x b) ∧
      s' = requeue n a := by
  rcases process_eq_ok h with ⟨hnone, rfl⟩ | ⟨x, body?, s₁, hx, hfetch, hrest⟩
  · refine Or.inl ⟨rfl, rfl, rfl, ?_⟩
    intro x b hx
    rw [hnone] at hx
    cases hx
  · obtain ⟨hreq, hgraph, hpts, hqueue⟩ := fetch_eq_ok hfetch
    rcases body? with _ | b
    · have hrest' : s' = s₁ := hrest
      subst hrest'
      refine Or.inl ⟨hgraph, hpts, hqueue, ?_⟩
      intro x' b hx' hb
      rw [hx] at hx'
      cases hx'
      rw [hreq] at hb
      cases hb
    · obtain ⟨a, hfold, hs'⟩ := hrest
      obtain ⟨hadv, hclose⟩ := advance_of_body hfold
      have hfetched : Advance p n x b (s, false) (s₁, false) :=
        Advance.of_eq hgraph hpts hqueue false
      exact Or.inr ⟨x, b, a, hx, hreq, hfetched.trans hadv, hclose, hs'⟩

/-! ### The invariant -/

/-- The root has not been processed: it calls entry points only. -/
def RootUntouched (g : CallGraph) : Prop :=
  ∀ e ∈ g.edges, e.caller = CallGraph.root → g.IsEntry e

/-- Every node with a body is queued, closed, or the untouched root. -/
def ClosedOrQueued (p : Plan) (s : Progress) : Prop :=
  ∀ m y b, s.graph.node? m = some y → p.provider.request y.method = .ok (some b) →
    m ∈ s.queue ∨ Closed p s.graph s.pointsTo m y b ∨
      (m = CallGraph.root ∧ RootUntouched s.graph)

theorem RootUntouched.advance {b : Body} {a a' : Progress × Bool} (h : RootUntouched a.1.graph)
    (hadv : Advance p n x b a a') (hn : n ≠ CallGraph.root) : RootUntouched a'.1.graph := by
  intro e he hroot
  rcases hadv.edges e he with hold | ⟨hcaller, -⟩
  · exact (h e hold hroot).mono hadv.graph
  · exact absurd (hcaller.symm.trans hroot) hn

/-- A closed node other than `n` that is not queued stays closed while `n` advances, if `n`
    queues its callers in case its own sets grow. -/
theorem Closed.advance {m : Nat} {y : Node} {b bm : Body} {a a' : Progress × Bool}
    (h : Closed p a.1.graph a.1.pointsTo m y bm) (hadv : Advance p n x b a a') (hmn : m ≠ n)
    (hidle : m ∉ a'.1.queue) (hcallers : a'.2 = true → m ∉ a'.1.graph.callers n) :
    Closed p a'.1.graph a'.1.pointsTo m y bm := by
  refine h.mono hadv.graph hadv.pointsTo ?_ ?_
  · intro v o ho
    rcases hadv.grown m v o ho with hold | ⟨hmn', -⟩ | ⟨hqueued, -⟩
    · exact hold
    · exact absurd hmn' hmn
    · exact absurd hqueued hidle
  · -- A called node that now returns more is `n` itself.
    intro site c yc bc w o he hc hbc hnot ho
    rcases hadv.grown c w o ho with hold | ⟨rfl, hchanged⟩ | ⟨-, y', bc', hy', hbc', hw⟩
    · exact hold
    · have hcaller : m ∈ a'.1.graph.callers c :=
        CallGraph.mem_callers.mpr ⟨site, hadv.graph.edges _ he⟩
      exact absurd hcaller (hcallers hchanged)
    · rw [hadv.graph.nodes c yc hc] at hy'
      cases hy'
      rw [hbc] at hbc'
      cases hbc'
      exact absurd hw hnot

/-- Processing a node that was taken from the queue restores the invariant: the node is closed
    or queued again, and so is every node that its growth may have opened. -/
theorem closedOrQueued_process {s s' : Progress} {rest : List Nat}
    (hinv : ClosedOrQueued p s) (hqueue : s.queue = n :: rest)
    (h : process p n { s with queue := rest } = .ok s') : ClosedOrQueued p s' := by
  intro m y bm hy hbm
  -- Before the processing, every node but `n` kept the invariant with the rest of the queue.
  have hbefore : ∀ y, m ≠ n → s.graph.node? m = some y →
      p.provider.request y.method = .ok (some bm) →
      m ∈ rest ∨ Closed p s.graph s.pointsTo m y bm ∨
        (m = CallGraph.root ∧ RootUntouched s.graph) := by
    intro y hmn hy hbm
    rcases hinv m y bm hy hbm with hm | hothers
    · rw [hqueue] at hm
      exact Or.inl (List.mem_of_ne_of_mem hmn hm)
    · exact Or.inr hothers
  rcases process_cases h with ⟨hg, hp, hq, hnone⟩ | ⟨x, b, a, hx, hb, hadv, hclose, rfl⟩
  · rw [hg] at hy
    have hmn : m ≠ n := by
      rintro rfl
      exact hnone y bm hy hbm
    rw [hg, hp, hq]
    exact hbefore y hmn hy hbm
  · obtain ⟨hg, hp, hq, hrequeued⟩ := requeue_spec n a
    rw [hg] at hy
    rw [hg, hp]
    by_cases hm : m ∈ (requeue n a).queue
    · exact Or.inl hm
    · refine Or.inr ?_
      have hidle : m ∉ a.1.queue := fun hm' => hm (hq m hm')
      have hold : s.graph.node? m = some y := by
        rcases hadv.fresh m y bm hy hbm with hold | hqueued
        · exact hold
        · exact absurd hqueued hidle
      by_cases hmn : m = n
      · -- The node itself is not queued again, so its sets have not grown.
        subst hmn
        rw [show s.graph.node? m = some x from hx] at hold
        cases hold
        rw [hb] at hbm
        cases hbm
        have hquiet : a.2 = false := by
          rw [← Bool.not_eq_true]
          exact fun hc => hm (hrequeued hc).1
        exact Or.inl (hclose hquiet hidle)
      · rcases hbefore y hmn hold hbm with hqueued | hclosed | ⟨rfl, huntouched⟩
        · exact absurd (hadv.queue m hqueued) hidle
        · exact Or.inl (hclosed.advance hadv hmn hidle
            fun hchanged hcaller => hm ((hrequeued hchanged).2 m hcaller))
        · refine Or.inr ⟨rfl, ?_⟩
          have hbefore' : RootUntouched
              (({ s with queue := rest } : Progress), false).1.graph := huntouched
          exact hbefore'.advance hadv (Ne.symm hmn)

end Construction
end StreamVerdict
