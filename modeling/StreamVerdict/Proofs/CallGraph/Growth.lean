/-
  What processing a node can do to a construction.

  While a node is processed, graph, points-to sets and queue only grow.  `Advance` says
  whatever else is known of that growth: which sets may grow and what is queued on that
  account, which nodes may be new, and which call each new edge stems from.  It holds for
  every single operation, it is transitive, and so it holds for the processing as a whole.
-/
import StreamVerdict.CallGraph.Construction
import StreamVerdict.Proofs.CallGraph.Graph
import StreamVerdict.Proofs.CallGraph.PointsTo
import StreamVerdict.Proofs.Data.Fold
import StreamVerdict.Proofs.Data.Worklist

namespace StreamVerdict
namespace Construction

/-! ### Targets and arguments of calls -/

/-- The node that a call from a node leads to. -/
def calledNode (p : Plan) (x : Node) (site : CallSite) (target : MethodRef × Option Instance) :
    Node :=
  ⟨target.1, ⟨x.context.callString.push ⟨site, x.method⟩ p.depth, target.2⟩⟩

/-- The targets of a call depend on the members of the points-to sets only. -/
theorem mem_targets_congr {p : Plan} {pts pts' : PointsTo} {n : Nat}
    (h : ∀ v o, o ∈ pts.get n v ↔ o ∈ pts'.get n v) {args : List ValueNumber} {site : CallSite}
    {t : MethodRef × Option Instance} :
    t ∈ targets p pts n args site ↔ t ∈ targets p pts' n args site := by
  -- A call reads which receivers there are, and one that does not dispatch also whether there
  -- are any.
  have hmem : ∀ v o, o ∈ (pts.get n v).toList ↔ o ∈ (pts'.get n v).toList := h
  have hnil : ∀ v, (pts.get n v).toList.isEmpty = (pts'.get n v).toList.isEmpty := by
    intro v
    rw [Bool.eq_iff_iff, List.isEmpty_iff, List.isEmpty_iff, OrdSet.toList_eq_nil_iff,
      OrdSet.toList_eq_nil_iff]
    simp only [h v]
  simp only [targets]
  by_cases hstatic : site.kind.isStatic
  · simp [hstatic]
  · rcases args.head? with _ | v
    · simp [hstatic]
    · by_cases hdispatch : site.kind.isDispatch
      · simp only [hstatic, hdispatch, if_false, if_true, Bool.false_eq_true, List.mem_filterMap,
          hmem v]
      · simp only [hstatic, hdispatch, if_false, Bool.false_eq_true, hnil v]
        by_cases hempty : (pts'.get n v).toList.isEmpty
        · simp [hempty]
        · simp only [hempty, Bool.false_eq_true, if_false, List.mem_map, hmem v]

/-- What a call passes grows with the sets of the calling node. -/
theorem passed_mono {pts pts' : PointsTo} {caller : Nat}
    (h : ∀ v, pts.get caller v ⊆ pts'.get caller v) {args : List ValueNumber}
    {receiver : Option Instance} {isStatic : Bool} {i : Nat} {o : Instance}
    (ho : o ∈ passed pts caller args receiver isStatic i) :
    o ∈ passed pts' caller args receiver isStatic i := by
  -- Without an argument at this position the receiver alone is passed, if anything is.
  rcases harg : args[i]? with _ | v
  · simp only [passed, harg] at ho ⊢
    exact ho
  · simp only [passed, harg] at ho ⊢
    rcases receiver with _ | r
    · exact h v o ho
    · by_cases hself : i = 0 ∧ isStatic = false
      · simp only [if_pos hself] at ho ⊢
        exact ho
      · simp only [if_neg hself] at ho ⊢
        exact h v o ho

/-! ### Single operations -/

theorem mem_flow {s : Progress} {n m : Nat} {v w : ValueNumber} {is : List Instance}
    {o : Instance} :
    o ∈ (s.flow n v is).1.pointsTo.get m w ↔
      o ∈ s.pointsTo.get m w ∨ (m = n ∧ w = v ∧ o ∈ is) :=
  PointsTo.mem_get_insertAll

/-- An object that is new in a set makes the flow report growth. -/
theorem grew_of_mem_flow {s : Progress} {n m : Nat} {v w : ValueNumber} {is : List Instance}
    {o : Instance} (h : o ∈ (s.flow n v is).1.pointsTo.get m w) :
    o ∈ s.pointsTo.get m w ∨ ((s.flow n v is).2 = true ∧ m = n ∧ w = v ∧ o ∈ is) := by
  rcases mem_flow.mp h with hold | ⟨rfl, rfl, his⟩
  · exact Or.inl hold
  · by_cases ho : o ∈ s.pointsTo.get m w
    · exact Or.inl ho
    · refine Or.inr ⟨?_, rfl, rfl, his⟩
      show s.pointsTo.lacks m w is = true
      rw [← Bool.not_eq_false, PointsTo.lacks_eq_false]
      exact fun hall => ho (hall o his)

/-- The provider's answer is passed on, and nothing but the record of requests changes. -/
theorem fetch_eq_ok {p : Plan} {m : MethodRef} {s s' : Progress} {body? : Option Body}
    (h : fetch p m s = .ok (body?, s')) :
    p.provider.request m = .ok body? ∧ s'.graph = s.graph ∧ s'.pointsTo = s.pointsTo ∧
      s'.queue = s.queue := by
  rw [fetch] at h
  rcases hreq : p.provider.request m with e | _ | b
  · simp [hreq] at h
  · simp only [hreq, Except.ok.injEq, Prod.mk.injEq] at h
    obtain ⟨rfl, rfl⟩ := h
    exact ⟨rfl, rfl, rfl, rfl⟩
  · simp only [hreq] at h
    by_cases hb : b ∈ s.bodies
    · rw [if_pos hb] at h
      simp only [Except.ok.injEq, Prod.mk.injEq] at h
      obtain ⟨rfl, rfl⟩ := h
      exact ⟨rfl, rfl, rfl, rfl⟩
    · rw [if_neg hb] at h
      simp only [Except.ok.injEq, Prod.mk.injEq] at h
      obtain ⟨rfl, rfl⟩ := h
      exact ⟨rfl, rfl, rfl, rfl⟩

/-! ### Passing arguments -/

/-- What passing the arguments of a call changes: only parameters of the called node grow, by
    what is passed to them, and growth is reported. -/
structure Bound (caller callee : Nat) (args : List ValueNumber) (receiver : Option Instance)
    (b : Body) (a a' : Progress × Bool) : Prop where
  graph : a'.1.graph = a.1.graph
  queue : a'.1.queue = a.1.queue
  pointsTo : a.1.pointsTo ≤ a'.1.pointsTo
  reported : a.2 = true → a'.2 = true
  grown : ∀ m v o, o ∈ a'.1.pointsTo.get m v → o ∈ a.1.pointsTo.get m v ∨
    (a'.2 = true ∧ m = callee ∧ ∃ i, b.params[i]? = some v ∧
      o ∈ passed a'.1.pointsTo caller args receiver b.isStatic i)

namespace Bound

variable {caller callee : Nat} {args : List ValueNumber} {receiver : Option Instance} {b : Body}

theorem refl (a : Progress × Bool) : Bound caller callee args receiver b a a where
  graph := rfl
  queue := rfl
  pointsTo := PointsTo.le_refl _
  reported := id
  grown _ _ _ h := Or.inl h

theorem trans {a a' a'' : Progress × Bool} (h : Bound caller callee args receiver b a a')
    (h' : Bound caller callee args receiver b a' a'') :
    Bound caller callee args receiver b a a'' where
  graph := h'.graph.trans h.graph
  queue := h'.queue.trans h.queue
  pointsTo := PointsTo.le_trans h.pointsTo h'.pointsTo
  reported ha := h'.reported (h.reported ha)
  grown m v o ho := by
    rcases h'.grown m v o ho with ho' | hnew
    · rcases h.grown m v o ho' with hold | ⟨hgrew, hm, i, hi, hpass⟩
      · exact Or.inl hold
      · -- What was passed before is passed still: in a call of a node to itself, binding one
        -- parameter may add to what is passed to the next.
        exact Or.inr ⟨h'.reported hgrew, hm, i, hi, passed_mono (h'.pointsTo caller) hpass⟩
    · exact Or.inr hnew

end Bound

/-- What the call passes to one parameter flows into it. -/
def bindParam (caller callee : Nat) (args : List ValueNumber) (receiver : Option Instance)
    (b : Body) (a : Progress × Bool) (param : ValueNumber × Nat) : Progress × Bool :=
  let flowed :=
    a.1.flow callee param.1 (passed a.1.pointsTo caller args receiver b.isStatic param.2)
  (flowed.1, a.2 || flowed.2)

theorem bindParams_eq (s : Progress) (caller callee : Nat) (args : List ValueNumber)
    (receiver : Option Instance) (b : Body) :
    bindParams s caller callee args receiver b =
      b.params.zipIdx.foldl (bindParam caller callee args receiver b) (s, false) := rfl

/-- Binding one parameter adds what the call passes to it, and reports that. -/
theorem bindParam_bound {caller callee : Nat} {args : List ValueNumber}
    {receiver : Option Instance} {b : Body} {v : ValueNumber} {i : Nat}
    (hi : b.params[i]? = some v) (a : Progress × Bool) :
    Bound caller callee args receiver b a (bindParam caller callee args receiver b a (v, i)) := by
  refine ⟨rfl, rfl, PointsTo.le_insertAll _ _ _ _, ?_, ?_⟩
  · intro ha
    show (a.2 || _) = true
    rw [ha, Bool.true_or]
  · intro m w o ho
    rcases grew_of_mem_flow ho with hold | ⟨hgrew, rfl, rfl, hpass⟩
    · exact Or.inl hold
    · refine Or.inr ⟨?_, rfl, i, hi, passed_mono (PointsTo.le_insertAll _ _ _ _ caller) hpass⟩
      show (a.2 || _) = true
      rw [hgrew, Bool.or_true]

/-- Binding parameters delivers to each parameter what the call passes to it. -/
theorem bindParams_bound (s : Progress) (caller callee : Nat) (args : List ValueNumber)
    (receiver : Option Instance) (b : Body) :
    Bound caller callee args receiver b (s, false) (bindParams s caller callee args receiver b) ∧
    ∀ i v, b.params[i]? = some v → ∀ o ∈ passed s.pointsTo caller args receiver b.isStatic i,
      o ∈ (bindParams s caller callee args receiver b).1.pointsTo.get callee v := by
  obtain ⟨hall, heach⟩ := foldl_passes Bound.refl (fun _ _ _ => Bound.trans)
    (f := bindParam caller callee args receiver b) (l := b.params.zipIdx) (s, false)
    (fun a param hmem _ => bindParam_bound (List.mem_zipIdx_iff_getElem?.mp hmem) a)
  rw [bindParams_eq]
  refine ⟨hall, ?_⟩
  intro i v hi o ho
  have hmem : (v, i) ∈ b.params.zipIdx := List.mem_zipIdx_iff_getElem?.mpr hi
  obtain ⟨a, hbefore, hafter⟩ := heach (v, i) hmem
  apply hafter.pointsTo
  exact mem_flow.mpr (Or.inr ⟨rfl, rfl, passed_mono (hbefore.pointsTo caller) ho⟩)

/-! ### Growth while a node is processed -/

/-- The value is a parameter in the body of the node's method. -/
def IsParam (p : Plan) (g : CallGraph) (m : Nat) (v : ValueNumber) : Prop :=
  ∃ y b, g.node? m = some y ∧ p.provider.request y.method = .ok (some b) ∧ v ∈ b.params

theorem IsParam.mono {p : Plan} {g g' : CallGraph} {m : Nat} {v : ValueNumber} (hg : g ≤ g')
    (h : IsParam p g m v) : IsParam p g' m v := by
  obtain ⟨y, b, hy, hb, hv⟩ := h
  exact ⟨y, b, hg.nodes m y hy, hb, hv⟩

/-- The edge stems from a call in the body of its calling node, which had the called node
    among its targets with some earlier points-to sets. -/
def Stems (p : Plan) (x : Node) (b : Body) (s : Progress) (e : Edge) : Prop :=
  ∃ i result args line pts t, Instruction.invoke i result args e.site line ∈ b.instructions ∧
    pts ≤ s.pointsTo ∧ t ∈ targets p pts e.caller args e.site ∧
    s.graph.node? e.callee = some (calledNode p x e.site t)

theorem Stems.mono {p : Plan} {x : Node} {b : Body} {s s' : Progress} {e : Edge}
    (hg : s.graph ≤ s'.graph) (hpts : s.pointsTo ≤ s'.pointsTo) (h : Stems p x b s e) :
    Stems p x b s' e := by
  obtain ⟨i, result, args, line, pts, t, hins, hle, ht, hnode⟩ := h
  exact ⟨i, result, args, line, pts, t, hins, PointsTo.le_trans hle hpts, ht,
    hg.nodes _ _ hnode⟩

/-- What can happen while node `n`, which is `x` with body `b`, is processed.  The flag tells
    whether a set of `n` itself grew, apart from its parameters. -/
structure Advance (p : Plan) (n : Nat) (x : Node) (b : Body) (a a' : Progress × Bool) : Prop where
  graph : a.1.graph ≤ a'.1.graph
  pointsTo : a.1.pointsTo ≤ a'.1.pointsTo
  queue : ∀ m, m ∈ a.1.queue → m ∈ a'.1.queue
  changed : a.2 = true → a'.2 = true
  /-- A set that grew belongs to `n`, or it is a parameter of a node that is queued. -/
  grown : ∀ m v o, o ∈ a'.1.pointsTo.get m v → o ∈ a.1.pointsTo.get m v ∨
    (m = n ∧ a'.2 = true) ∨ (m ∈ a'.1.queue ∧ IsParam p a'.1.graph m v)
  /-- A new node is queued, unless it has no body. -/
  fresh : ∀ m y c, a'.1.graph.node? m = some y → p.provider.request y.method = .ok (some c) →
    a.1.graph.node? m = some y ∨ m ∈ a'.1.queue
  /-- A new edge stems from a call of `n`. -/
  edges : ∀ e, e ∈ a'.1.graph.edges → e ∈ a.1.graph.edges ∨
    (e.caller = n ∧ Stems p x b a'.1 e)

namespace Advance

variable {p : Plan} {n : Nat} {x : Node} {b : Body}

/-- Nothing happened that matters. -/
theorem of_eq {s s' : Progress} (hgraph : s'.graph = s.graph) (hpts : s'.pointsTo = s.pointsTo)
    (hqueue : s'.queue = s.queue) (c : Bool) : Advance p n x b (s, c) (s', c) where
  graph := by rw [hgraph]; exact CallGraph.le_refl _
  pointsTo := by rw [hpts]; exact PointsTo.le_refl _
  queue m hm := by rw [hqueue]; exact hm
  changed := id
  grown m v o ho := by rw [hpts] at ho; exact Or.inl ho
  fresh m y c hy _ := by rw [hgraph] at hy; exact Or.inl hy
  edges e he := by rw [hgraph] at he; exact Or.inl he

theorem refl (a : Progress × Bool) : Advance p n x b a a := of_eq rfl rfl rfl a.2

theorem trans {a a' a'' : Progress × Bool} (h : Advance p n x b a a')
    (h' : Advance p n x b a' a'') : Advance p n x b a a'' where
  graph := CallGraph.le_trans h.graph h'.graph
  pointsTo := PointsTo.le_trans h.pointsTo h'.pointsTo
  queue m hm := h'.queue m (h.queue m hm)
  changed ha := h'.changed (h.changed ha)
  grown m v o ho := by
    rcases h'.grown m v o ho with ho' | hnew
    · rcases h.grown m v o ho' with hold | ⟨hm, hc⟩ | ⟨hm, hparam⟩
      · exact Or.inl hold
      · exact Or.inr (Or.inl ⟨hm, h'.changed hc⟩)
      · exact Or.inr (Or.inr ⟨h'.queue m hm, hparam.mono h'.graph⟩)
    · exact Or.inr hnew
  fresh m y c hy hc := by
    rcases h'.fresh m y c hy hc with hy' | hq
    · rcases h.fresh m y c hy' hc with hold | hq
      · exact Or.inl hold
      · exact Or.inr (h'.queue m hq)
    · exact Or.inr hq
  edges e he := by
    rcases h'.edges e he with he' | hnew
    · rcases h.edges e he' with hold | ⟨hn, hstems⟩
      · exact Or.inl hold
      · exact Or.inr ⟨hn, hstems.mono h'.graph h'.pointsTo⟩
    · exact Or.inr hnew

/-- A flow into a set of `n` is reported by the flag. -/
theorem flow (s : Progress) (c : Bool) (v : ValueNumber) (is : List Instance) :
    Advance p n x b (s, c) ((s.flow n v is).1, c || (s.flow n v is).2) where
  graph := CallGraph.le_refl _
  pointsTo := PointsTo.le_insertAll _ _ _ _
  queue _ hm := hm
  changed hc := by
    show (c || _) = true
    rw [show c = true from hc, Bool.true_or]
  grown m w o ho := by
    rcases grew_of_mem_flow ho with hold | ⟨hgrew, hm, -, -⟩
    · exact Or.inl hold
    · refine Or.inr (Or.inl ⟨hm, ?_⟩)
      show (c || _) = true
      rw [hgrew, Bool.or_true]
  fresh _ _ _ hy _ := Or.inl hy
  edges _ he := Or.inl he

end Advance

/-! ### Following a call -/

/-- The called node and the edge to it are in the graph. -/
def link (s : Progress) (n : Nat) (site : CallSite) (called : Node) : Progress :=
  { s with graph :=
      (s.graph.insertNode called).2.insertEdge ⟨n, site, (s.graph.insertNode called).1⟩ }

/-- The arguments are passed, and the called node is queued if it is new or has more to do. -/
def deliver (s : Progress) (caller callee : Nat) (isNew : Bool) (args : List ValueNumber)
    (receiver : Option Instance) (b : Body) : Progress :=
  let bound := bindParams s caller callee args receiver b
  if isNew || bound.2 then bound.1.enqueue callee else bound.1

/-- What the called node returns flows into the result of the call. -/
def bringBack (s : Progress) (changed : Bool) (n callee : Nat) (result : Option ValueNumber)
    (b : Body) : Progress × Bool :=
  match result with
  | none => (s, changed)
  | some v =>
    let returned := s.flow n v (s.pointsTo.union callee b.returnValues)
    (returned.1, changed || returned.2)

/-- Following a call: the graph is extended, then the body is asked for, and if there is one
    the arguments go in and the returned objects come back. -/
theorem follow_eq_ok {p : Plan} {n : Nat} {x : Node} {result : Option ValueNumber}
    {args : List ValueNumber} {site : CallSite} {a a' : Progress × Bool}
    {t : MethodRef × Option Instance} (h : follow p n x result args site a t = .ok a') :
    ∃ body? s, fetch p t.1 (link a.1 n site (calledNode p x site t)) = .ok (body?, s) ∧
      match body? with
      | none => a' = (s, a.2)
      | some b =>
        let callee := (a.1.graph.insertNode (calledNode p x site t)).1
        a' = bringBack
          (deliver s n callee (a.1.graph.find? (calledNode p x site t)).isNone args t.2 b)
          a.2 n callee result b := by
  rw [follow, bind_eq_ok] at h
  obtain ⟨⟨body?, s⟩, hfetch, hrest⟩ := h
  refine ⟨body?, s, hfetch, ?_⟩
  rcases body? with _ | b
  · cases hrest
    rfl
  · rcases result with _ | v
    · cases hrest
      rfl
    · cases hrest
      rfl

theorem link_graph_le (s : Progress) (n : Nat) (site : CallSite) (called : Node) :
    s.graph ≤ (link s n site called).graph :=
  CallGraph.le_trans (CallGraph.le_insertNode _ _) (CallGraph.le_insertEdge _ _)

theorem node?_link_self (s : Progress) (n : Nat) (site : CallSite) (called : Node) :
    (link s n site called).graph.node? (s.graph.insertNode called).1 = some called := by
  rw [link, CallGraph.node?_insertEdge]
  exact CallGraph.node?_insertNode_self _ _

theorem node?_link {s : Progress} {n m : Nat} {site : CallSite} {called y : Node}
    (h : (link s n site called).graph.node? m = some y) :
    s.graph.node? m = some y ∨
      (s.graph.find? called = none ∧ m = (s.graph.insertNode called).1 ∧ y = called) := by
  rw [link, CallGraph.node?_insertEdge] at h
  exact CallGraph.node?_insertNode h

theorem mem_edges_link {s : Progress} {n : Nat} {site : CallSite} {called : Node} {e : Edge} :
    e ∈ (link s n site called).graph.edges ↔
      e = ⟨n, site, (s.graph.insertNode called).1⟩ ∨ e ∈ s.graph.edges := by
  rw [link, CallGraph.mem_edges_insertEdge, CallGraph.insertNode_edges]

theorem edge_mem_link (s : Progress) (n : Nat) (site : CallSite) (called : Node) :
    ⟨n, site, (s.graph.insertNode called).1⟩ ∈ (link s n site called).graph.edges :=
  mem_edges_link.mpr (Or.inl rfl)

/-- All that following a call can do.  The called node stands in the graph, at a position that
    was free if the node is new.  Without a body nothing else changes; with one, the arguments
    go in and the returned objects come back. -/
theorem follow_cases {p : Plan} {n : Nat} {x : Node} {result : Option ValueNumber}
    {args : List ValueNumber} {site : CallSite} {a a' : Progress × Bool}
    {t : MethodRef × Option Instance} (h : follow p n x result args site a t = .ok a') :
    ∃ s callee isNew, s.graph = (link a.1 n site (calledNode p x site t)).graph ∧
      s.pointsTo = a.1.pointsTo ∧ s.queue = a.1.queue ∧
      s.graph.node? callee = some (calledNode p x site t) ∧
      (isNew = true → a.1.graph.node? callee = none) ∧
      ((p.provider.request t.1 = .ok none ∧ a' = (s, a.2)) ∨
        ∃ c, p.provider.request t.1 = .ok (some c) ∧
          a' = bringBack (deliver s n callee isNew args t.2 c) a.2 n callee result c) := by
  obtain ⟨body?, s, hfetch, hrest⟩ := follow_eq_ok h
  obtain ⟨hreq, hgraph, hpointsTo, hqueue⟩ := fetch_eq_ok hfetch
  refine ⟨s, (a.1.graph.insertNode (calledNode p x site t)).1,
    (a.1.graph.find? (calledNode p x site t)).isNone, hgraph, hpointsTo, hqueue, ?_, ?_, ?_⟩
  · rw [hgraph]
    exact node?_link_self _ _ _ _
  · -- A node that is not found gets the first position that is free.
    intro hnone
    rw [Option.isNone_iff_eq_none] at hnone
    rw [CallGraph.insertNode_of_none hnone]
    exact List.getElem?_eq_none (Nat.le_refl _)
  · rcases body? with _ | c
    · exact Or.inl ⟨hreq, hrest⟩
    · exact Or.inr ⟨c, hreq, hrest⟩

/-- Passing the arguments of a call leaves the graph alone, delivers what is passed, and
    queues the called node if it is new or one of its parameters grew. -/
theorem deliver_spec (s : Progress) (caller callee : Nat) (isNew : Bool) (args : List ValueNumber)
    (receiver : Option Instance) (b : Body) :
    let s' := deliver s caller callee isNew args receiver b
    s'.graph = s.graph ∧ s.pointsTo ≤ s'.pointsTo ∧ (∀ m, m ∈ s.queue → m ∈ s'.queue) ∧
    (isNew = true → callee ∈ s'.queue) ∧
    (∀ m v o, o ∈ s'.pointsTo.get m v → o ∈ s.pointsTo.get m v ∨
      (m = callee ∧ callee ∈ s'.queue ∧ v ∈ b.params)) ∧
    ∀ i v, b.params[i]? = some v → ∀ o ∈ passed s.pointsTo caller args receiver b.isStatic i,
      o ∈ s'.pointsTo.get callee v := by
  obtain ⟨hbound, hpassed⟩ := bindParams_bound s caller callee args receiver b
  generalize hr : bindParams s caller callee args receiver b = r at hbound hpassed
  rw [deliver, hr]
  by_cases hq : (isNew || r.2) = true
  · rw [if_pos hq]
    have hcallee : callee ∈ (r.1.enqueue callee).queue :=
      Worklist.mem_enqueue.mpr (Or.inr rfl)
    refine ⟨hbound.graph, hbound.pointsTo, ?_, fun _ => hcallee, ?_, hpassed⟩
    · intro m hm
      rw [← show r.1.queue = s.queue from hbound.queue] at hm
      exact Worklist.mem_enqueue.mpr (Or.inl hm)
    · intro m v o ho
      rcases hbound.grown m v o ho with hold | ⟨-, hm, i, hi, -⟩
      · exact Or.inl hold
      · exact Or.inr ⟨hm, hcallee, List.mem_of_getElem? hi⟩
  · rw [if_neg hq]
    rw [Bool.not_eq_true, Bool.or_eq_false_iff] at hq
    refine ⟨hbound.graph, hbound.pointsTo, ?_, ?_, ?_, hpassed⟩
    · intro m hm
      rwa [hbound.queue]
    · intro hnew
      rw [hq.1] at hnew
      contradiction
    · intro m v o ho
      rcases hbound.grown m v o ho with hold | ⟨hgrew, -⟩
      · exact Or.inl hold
      · rw [hq.2] at hgrew
        contradiction

theorem bringBack_advance {p : Plan} {n : Nat} {x : Node} {b : Body} (s : Progress) (changed : Bool)
    (callee : Nat) (result : Option ValueNumber) (c : Body) :
    Advance p n x b (s, changed) (bringBack s changed n callee result c) := by
  rcases result with _ | v
  · exact Advance.refl _
  · exact Advance.flow s changed v _

@[simp] theorem bringBack_graph (s : Progress) (changed : Bool) (n callee : Nat)
    (result : Option ValueNumber) (c : Body) :
    (bringBack s changed n callee result c).1.graph = s.graph := by
  cases result <;> rfl

/-- After a call was followed, its result holds what the called node returns. -/
theorem mem_bringBack {s : Progress} {changed : Bool} {n callee : Nat} {d : ValueNumber} {c : Body}
    {w : ValueNumber} (hw : w ∈ c.returnValues) {o : Instance}
    (ho : o ∈ (bringBack s changed n callee (some d) c).1.pointsTo.get callee w) :
    o ∈ (bringBack s changed n callee (some d) c).1.pointsTo.get n d := by
  rcases mem_flow.mp ho with hold | ⟨rfl, rfl, hnew⟩
  -- In the second case a node calls itself and returns the result of that very call.
  · exact mem_flow.mpr (Or.inr ⟨rfl, rfl, PointsTo.mem_union.mpr ⟨w, hw, hold⟩⟩)
  · exact mem_flow.mpr (Or.inr ⟨rfl, rfl, hnew⟩)

/-- The edge of a followed call is justified as soon as the called node stands in the graph. -/
theorem stems_of_link {p : Plan} {n : Nat} {x : Node} {b : Body} {i : Nat}
    {result : Option ValueNumber} {args : List ValueNumber} {site : CallSite} {line : UInt32}
    (hins : Instruction.invoke i result args site line ∈ b.instructions) {pts : PointsTo}
    {t : MethodRef × Option Instance} (ht : t ∈ targets p pts n args site) {s s' : Progress}
    (hpts : pts ≤ s'.pointsTo) (hgraph : s'.graph = (link s n site (calledNode p x site t)).graph)
    (e : Edge) (he : e ∈ s'.graph.edges) :
    e ∈ s.graph.edges ∨ (e.caller = n ∧ Stems p x b s' e) := by
  rw [hgraph, mem_edges_link] at he
  rcases he with rfl | hold
  · refine Or.inr ⟨rfl, i, result, args, line, pts, t, hins, hpts, ht, ?_⟩
    rw [hgraph]
    exact node?_link_self _ _ _ _
  · exact Or.inl hold

/-- Following a call is no more than an advance of the calling node. -/
theorem follow_advance {p : Plan} {n : Nat} {x : Node} {b : Body} {i : Nat}
    {result : Option ValueNumber} {args : List ValueNumber} {site : CallSite} {line : UInt32}
    (hins : Instruction.invoke i result args site line ∈ b.instructions) {pts : PointsTo}
    {a a' : Progress × Bool} {t : MethodRef × Option Instance}
    (ht : t ∈ targets p pts n args site) (hpts : pts ≤ a.1.pointsTo)
    (h : follow p n x result args site a t = .ok a') : Advance p n x b a a' := by
  obtain ⟨body?, s, hfetch, hrest⟩ := follow_eq_ok h
  obtain ⟨hreq, hgraph, hpointsTo, hqueue⟩ := fetch_eq_ok hfetch
  generalize hcalled : calledNode p x site t = called at hfetch hrest hgraph hpointsTo hqueue
  have hle : a.1.graph ≤ s.graph := by
    rw [hgraph]
    exact link_graph_le _ _ _ _
  have hself : s.graph.node? (a.1.graph.insertNode called).1 = some called := by
    rw [hgraph]
    exact node?_link_self _ _ _ _
  have hmethod : called.method = t.1 := by rw [← hcalled]; rfl
  have hstems : ∀ s' : Progress, s'.graph = s.graph → a.1.pointsTo ≤ s'.pointsTo →
      ∀ e, e ∈ s'.graph.edges → e ∈ a.1.graph.edges ∨ (e.caller = n ∧ Stems p x b s' e) := by
    intro s' hs' hle'
    exact stems_of_link hins ht (PointsTo.le_trans hpts hle') (by rw [hs', hgraph, hcalled])
  rcases body? with _ | c
  · -- Without a body nothing but the graph changes, and the new node need not be queued.
    have hrest' : a' = (s, a.2) := hrest
    subst hrest'
    refine ⟨hle, ?_, ?_, id, ?_, ?_, hstems s rfl ?_⟩
    · rw [hpointsTo]
      exact PointsTo.le_refl _
    · intro m hm
      rwa [hqueue]
    · intro m v o ho
      rw [hpointsTo] at ho
      exact Or.inl ho
    · intro m y c hy hc
      rw [hgraph] at hy
      rcases node?_link hy with hold | ⟨-, -, rfl⟩
      · exact Or.inl hold
      · rw [hmethod, hreq] at hc
        cases hc
    · rw [hpointsTo]
      exact PointsTo.le_refl _
  · have hrest' : a' = bringBack (deliver s n (a.1.graph.insertNode called).1
        (a.1.graph.find? called).isNone args t.2 c) a.2 n (a.1.graph.insertNode called).1
        result c := hrest
    obtain ⟨hg, hp, hq, hnew, hgrown, -⟩ := deliver_spec s n (a.1.graph.insertNode called).1
      (a.1.graph.find? called).isNone args t.2 c
    generalize deliver s n (a.1.graph.insertNode called).1 (a.1.graph.find? called).isNone args
      t.2 c = s' at hrest' hg hp hq hnew hgrown
    rw [hrest']
    have hp' : a.1.pointsTo ≤ s'.pointsTo := by
      rw [show a.1.pointsTo = s.pointsTo from hpointsTo.symm]
      exact hp
    -- Bringing back is a flow into a set of `n`; what remains is to pass the arguments.
    suffices hmid : Advance p n x b a (s', a.2) from hmid.trans (bringBack_advance _ _ _ _ _)
    refine ⟨?_, hp', ?_, id, ?_, ?_, hstems s' hg hp'⟩
    · rw [hg]
      exact hle
    · intro m hm
      apply hq
      rwa [hqueue]
    · intro m v o ho
      rcases hgrown m v o ho with hold | ⟨rfl, hm, hv⟩
      · rw [hpointsTo] at hold
        exact Or.inl hold
      · refine Or.inr (Or.inr ⟨hm, called, c, ?_, ?_, hv⟩)
        · rw [hg]
          exact hself
        · rw [hmethod]
          exact hreq
    · intro m y _ hy _
      rw [hg, hgraph] at hy
      rcases node?_link hy with hold | ⟨hnone, rfl, -⟩
      · exact Or.inl hold
      · exact Or.inr (hnew (by rw [hnone]; rfl))

end Construction
end StreamVerdict
