/-
  A built call graph is closed under local flow and under flow into calls.

  Whenever a construction succeeds, merges are copied, allocations are in place, every call is
  followed to every target that the final points-to sets give it, and every entry point is
  seeded.
-/
import StreamVerdict.Proofs.CallGraph.Determinacy
import StreamVerdict.Proofs.CallGraph.Seeding

namespace StreamVerdict
namespace Construction

variable {p : Plan}

/-! ### Successful constructions -/

theorem take?_eq_some {s t : Progress} {n : Nat} (h : s.take? = some (n, t)) :
    ∃ rest, s.queue = n :: rest ∧ t = { s with queue := rest } := by
  rw [Progress.take?] at h
  rcases hq : s.queue with _ | ⟨m, rest⟩
  · simp [hq] at h
  · simp only [hq, Option.some.injEq, Prod.mk.injEq] at h
    obtain ⟨rfl, rfl⟩ := h
    exact ⟨rest, rfl, rfl⟩

theorem take?_eq_none {s : Progress} (h : s.take? = none) : s.queue = [] := by
  rw [Progress.take?] at h
  rcases hq : s.queue with _ | ⟨m, rest⟩
  · rfl
  · simp [hq] at h

/-- A construction that succeeds was seeded and then worked on until the queue was empty. -/
theorem reaches_of_build {entrypoints : List MethodRef} {monitor : Monitor} {g : BuiltGraph}
    (h : (build p entrypoints monitor).result = .ok g) :
    ∃ s₀ s, entrypoints.zipIdx.foldlM (seedEntry p) Progress.start = .ok s₀ ∧
      (machine p).Reaches s₀ s ∧ s.queue = [] ∧
      g = ⟨s.graph, s.pointsTo, s.bodies, p.depth⟩ := by
  rcases build_cases p entrypoints with ⟨e, requests, hfail⟩ | ⟨s₀, hseed, hbuild⟩
  · rw [hfail] at h
    cases h
  · rw [hbuild] at h
    rcases hrun : (machine p).runToEnd monitor s₀ with ⟨monitor', ending⟩
    rw [hrun] at h
    cases ending with
    | settled s =>
        obtain ⟨hreach, hend⟩ := Worklist.Machine.reaches_of_runToEnd hrun
        cases h
        exact ⟨s₀, s, hseed, hreach, take?_eq_none hend, rfl⟩
    | cancelled reason s => cases h
    | failed i => cases h
    | unfinished s => cases h

/-! ### The invariants of a construction -/

/-- What holds of a construction after seeding and after every turn. -/
structure Invariant (p : Plan) (entrypoints : List MethodRef) (s : Progress) : Prop where
  closed : ClosedOrQueued p s
  seeded : ∀ entry ∈ entrypoints.zipIdx, Seeded p s.graph s.pointsTo entry
  root : s.graph.node? CallGraph.root = some CallGraph.rootNode
  /-- An edge leads from the root to an entry point, or it stems from a call of its calling
      node. -/
  edges : ∀ e ∈ s.graph.edges, s.graph.IsEntry e ∨
    ∃ x b, s.graph.node? e.caller = some x ∧ p.provider.request x.method = .ok (some b) ∧
      Stems p x b s e

theorem invariant_of_seeding {entrypoints : List MethodRef} {s : Progress}
    (h : entrypoints.zipIdx.foldlM (seedEntry p) Progress.start = .ok s) :
    Invariant p entrypoints s := by
  obtain ⟨hsown, hseeded⟩ := seedAll_sown h
  -- The start has no node but the root.
  have hstart : ∀ m y, Progress.start.graph.node? m = some y → m = CallGraph.root := by
    intro m y hy
    have hlt : m < 1 := CallGraph.node?_lt hy
    exact Nat.lt_one_iff.mp hlt
  have hentry : ∀ e ∈ s.graph.edges, s.graph.IsEntry e := by
    intro e he
    rcases hsown.edges e he with hold | hentry
    · exact absurd hold List.not_mem_nil
    · exact hentry
  refine ⟨?_, hseeded, ?_, fun e he => Or.inl (hentry e he)⟩
  · intro m y b hy hb
    rcases hsown.fresh m y hy with hold | hqueued
    · exact Or.inr (Or.inr ⟨hstart m y hold, fun e he _ => hentry e he⟩)
    · exact Or.inl hqueued
  · exact hsown.graph.nodes _ _ rfl

/-- Graph and points-to sets only grow when a node is processed, and new edges stem from its
    calls. -/
theorem growth_of_process {n : Nat} {s s' : Progress} (h : process p n s = .ok s') :
    s.graph ≤ s'.graph ∧ s.pointsTo ≤ s'.pointsTo ∧
    ∀ e ∈ s'.graph.edges, e ∈ s.graph.edges ∨
      ∃ x b, s'.graph.node? e.caller = some x ∧ p.provider.request x.method = .ok (some b) ∧
        Stems p x b s' e := by
  rcases process_cases h with ⟨hg, hp, -, -⟩ | ⟨x, b, a, hx, hb, hadv, -, rfl⟩
  · rw [hg, hp]
    exact ⟨CallGraph.le_refl _, PointsTo.le_refl _, fun e he => Or.inl he⟩
  · obtain ⟨hg, hp, -, -⟩ := requeue_spec n a
    refine ⟨?_, ?_, ?_⟩
    · rw [hg]
      exact hadv.graph
    · rw [hp]
      exact hadv.pointsTo
    · intro e he
      rw [hg] at he
      rcases hadv.edges e he with hold | ⟨rfl, hstems⟩
      · exact Or.inl hold
      · refine Or.inr ⟨x, b, ?_, hb, ?_⟩
        · rw [hg]
          exact hadv.graph.nodes _ _ hx
        · refine hstems.mono ?_ ?_
          · rw [hg]
            exact CallGraph.le_refl _
          · rw [hp]
            exact PointsTo.le_refl _

theorem invariant_of_turn {entrypoints : List MethodRef} {s t s' : Progress} {n : Nat}
    (hinv : Invariant p entrypoints s) (htake : s.take? = some (n, t))
    (h : process p n t = .ok s') : Invariant p entrypoints s' := by
  obtain ⟨rest, hqueue, rfl⟩ := take?_eq_some htake
  obtain ⟨hg, hp, hedges⟩ := growth_of_process h
  refine ⟨closedOrQueued_process hinv.closed hqueue h, ?_, hg.nodes _ _ hinv.root, ?_⟩
  · intro entry hentry
    exact (hinv.seeded entry hentry).mono hg hp
  · intro e he
    rcases hedges e he with hold | hnew
    · rcases hinv.edges e hold with hentry | ⟨x, b, hx, hb, hstems⟩
      · exact Or.inl (hentry.mono hg)
      · exact Or.inr ⟨x, b, hg.nodes _ _ hx, hb, hstems.mono hg hp⟩
    · exact Or.inr hnew

/-- Every construction that succeeds ends with its invariants and an empty queue. -/
theorem invariant_of_build {entrypoints : List MethodRef} {monitor : Monitor} {g : BuiltGraph}
    (h : (build p entrypoints monitor).result = .ok g) :
    ∃ s, Invariant p entrypoints s ∧ s.queue = [] ∧
      g = ⟨s.graph, s.pointsTo, s.bodies, p.depth⟩ := by
  obtain ⟨s₀, s, hseed, hreach, hend, hg⟩ := reaches_of_build h
  refine ⟨s, ?_, hend, hg⟩
  exact hreach.preserves (fun _ _ _ _ hinv htake hproc => invariant_of_turn hinv htake hproc)
    (invariant_of_seeding hseed)

/-! ### What calls and entry points pass -/

theorem mem_passed_receiver {pts : PointsTo} {caller : Nat} {args : List ValueNumber}
    {r : Instance} {isStatic : Bool} (h : isStatic = false) :
    r ∈ passed pts caller args (some r) isStatic 0 := by
  simp [passed, h]

theorem mem_passed_argument {pts : PointsTo} {caller : Nat} {args : List ValueNumber}
    {receiver : Option Instance} {isStatic : Bool} {i : Nat} {u : ValueNumber} {o : Instance}
    (h : ¬ (i = 0 ∧ isStatic = false ∧ receiver.isSome)) (hu : args[i]? = some u)
    (ho : o ∈ pts.get caller u) : o ∈ passed pts caller args receiver isStatic i := by
  rcases receiver with _ | r
  · simp only [passed, hu]
    exact ho
  · have hself : ¬ (i = 0 ∧ isStatic = false) := fun hi => h ⟨hi.1, hi.2, rfl⟩
    simp only [passed, if_neg hself, hu]
    exact ho

theorem mem_entryReceivers_some {h : Hierarchy} {entry : MethodRef} {r : Instance}
    (hr : r ∈ seeds h entry.declaringClass.name) : some r ∈ entryReceivers h entry false := by
  simp only [entryReceivers, Bool.false_eq_true, if_false]
  rcases hs : seeds h entry.declaringClass.name with _ | ⟨i, is⟩
  · rw [hs] at hr
    cases hr
  · rw [hs] at hr
    exact List.mem_map_of_mem hr

theorem mem_entryReceivers_none {h : Hierarchy} {entry : MethodRef} {isStatic : Bool}
    (hnone : isStatic = true ∨ seeds h entry.declaringClass.name = []) :
    none ∈ entryReceivers h entry isStatic := by
  rw [entryReceivers]
  by_cases hstatic : isStatic = true
  · rw [if_pos hstatic]
    exact List.mem_singleton.mpr rfl
  · rw [if_neg hstatic]
    rcases hnone with h' | hseeds
    · exact absurd h' hstatic
    · rw [hseeds]
      exact List.mem_singleton.mpr rfl

theorem mem_entryArgument_receiver {h : Hierarchy} {entry : MethodRef} {r : Instance}
    {isStatic : Bool} (hinst : isStatic = false) :
    r ∈ entryArgument h entry (some r) isStatic 0 := by
  simp [entryArgument, hinst]

theorem mem_entryArgument_declared {h : Hierarchy} {entry : MethodRef}
    {receiver : Option Instance} {isStatic : Bool} {i : Nat} {t : TypeName} {o : Instance}
    (hi : ¬ (i = 0 ∧ isStatic = false))
    (ht : (if isStatic then entry.parameterTypes
      else entry.declaringClass.name :: entry.parameterTypes)[i]? = some t)
    (ho : o ∈ seeds h t) : o ∈ entryArgument h entry receiver isStatic i := by
  simp only [entryArgument, if_neg hi, ht]
  exact ho

/-! ### Closure under flow -/

/-- Closure of one node under local flow and under flow into its calls. -/
structure FlowClosed (p : Plan) (g : BuiltGraph) (n : Nat) (x : Node) (b : Body) : Prop where
  /-- A merge holds whatever its uses hold. -/
  phi : ∀ phi ∈ b.phis, ∀ u ∈ phi.uses, g.pointsTo.get n u ⊆ g.pointsTo.get n phi.result
  /-- An allocation holds the object that it allocates in this calling context. -/
  allocation : ∀ i v site line, Instruction.new i v site line ∈ b.instructions →
    Instance.allocated x.method site x.context.callString ∈ g.pointsTo.get n v
  /-- For every target that the final sets give a call, the called node and the edge to it
      exist, the receiver has arrived in an instance method, and every other parameter holds
      what the argument at its position holds. -/
  call : ∀ i result args site line, Instruction.invoke i result args site line ∈ b.instructions →
    ∀ target receiver, (target, receiver) ∈ targets p g.pointsTo n args site →
    ∃ c, g.graph.node? c =
        some ⟨target, ⟨x.context.callString.push ⟨site, x.method⟩ p.depth, receiver⟩⟩ ∧
      ⟨n, site, c⟩ ∈ g.graph.edges ∧
      ∀ called, p.provider.request target = .ok (some called) →
        ∀ j v, called.params[j]? = some v →
          (∀ r, receiver = some r → j = 0 → called.isStatic = false → r ∈ g.pointsTo.get c v) ∧
          (¬ (j = 0 ∧ called.isStatic = false ∧ receiver.isSome) →
            ∀ u, args[j]? = some u → g.pointsTo.get n u ⊆ g.pointsTo.get c v)

/-- The node of an entry point for one receiver: it is registered, the root calls it, the
    receiver is in place, and every other parameter holds an object of each concrete class of
    its declared type. -/
def EntrySeeded (p : Plan) (g : BuiltGraph) (entry : MethodRef) (i : Nat) (b : Body)
    (receiver : Option Instance) : Prop :=
  let site : CallSite := ⟨i, entry, if b.isStatic then .static else .virtual⟩
  let declared := if b.isStatic then entry.parameterTypes
    else entry.declaringClass.name :: entry.parameterTypes
  ∃ n, g.graph.node? n = some
      ⟨entry, ⟨CallString.empty.push ⟨site, CallGraph.rootMethod⟩ p.depth, receiver⟩⟩ ∧
    n ∈ g.graph.entrypoints ∧ ⟨CallGraph.root, site, n⟩ ∈ g.graph.edges ∧
    ∀ j v, b.params[j]? = some v →
      (∀ r, receiver = some r → j = 0 → b.isStatic = false → r ∈ g.pointsTo.get n v) ∧
      (¬ (j = 0 ∧ b.isStatic = false) → ∀ t, declared[j]? = some t →
        ∀ o ∈ seeds p.hierarchy t, o ∈ g.pointsTo.get n v)

theorem flowClosed_of_closed {g : BuiltGraph} {n : Nat} {x : Node} {b : Body}
    (h : Closed p g.graph g.pointsTo n x b) : FlowClosed p g n x b where
  phi := h.phis
  allocation := h.allocations
  call i result args site line hins target receiver ht := by
    obtain ⟨c, hc, he, hbody⟩ := h.calls i result args site line hins (target, receiver) ht
    refine ⟨c, hc, he, ?_⟩
    intro called hcalled j v hj
    obtain ⟨hparams, -, -⟩ := hbody called hcalled
    refine ⟨?_, ?_⟩
    · rintro r rfl rfl hinst
      exact hparams 0 v hj r (mem_passed_receiver hinst)
    · intro hother u hu o ho
      exact hparams j v hj o (mem_passed_argument hother hu ho)

theorem entrySeeded_of_seededFor {g : BuiltGraph} {entry : MethodRef} {i : Nat} {b : Body}
    {receiver : Option Instance}
    (h : SeededFor p g.graph g.pointsTo (entrySite (entry, i) b) b receiver) :
    EntrySeeded p g entry i b receiver := by
  obtain ⟨n, hn, hentry, hedge, hparams⟩ := h
  refine ⟨n, hn, hentry, hedge, ?_⟩
  intro j v hj
  refine ⟨?_, ?_⟩
  · rintro r rfl rfl hinst
    exact hparams 0 v hj r (mem_entryArgument_receiver hinst)
  · intro hother t ht o ho
    exact hparams j v hj o (mem_entryArgument_declared hother ht ho)

/-- A built call graph is closed under local flow and under flow into calls, at every node
    whose method has a body, and every entry point is seeded: an instance method for each
    object of its declaring class from outside of the program, or without a receiver if there
    is none, and a static method once. -/
theorem build_closed_under_flow (p : Plan) (entrypoints : List MethodRef) (monitor : Monitor)
    (g : BuiltGraph) (hroot : ∀ b, p.provider.request CallGraph.rootMethod ≠ .ok (some b))
    (h : (build p entrypoints monitor).result = .ok g) :
    (∀ n x b, g.graph.node? n = some x → p.provider.request x.method = .ok (some b) →
      FlowClosed p g n x b) ∧
    ∀ i entry, entrypoints[i]? = some entry → ∃ b, p.provider.request entry = .ok (some b) ∧
      (b.isStatic = false → ∀ r ∈ seeds p.hierarchy entry.declaringClass.name,
        EntrySeeded p g entry i b (some r)) ∧
      (b.isStatic = true ∨ seeds p.hierarchy entry.declaringClass.name = [] →
        EntrySeeded p g entry i b none) := by
  obtain ⟨s, hinv, hempty, rfl⟩ := invariant_of_build h
  refine ⟨?_, ?_⟩
  · intro n x b hx hb
    rcases hinv.closed n x b hx hb with hqueued | hclosed | ⟨rfl, -⟩
    · rw [hempty] at hqueued
      cases hqueued
    · exact flowClosed_of_closed hclosed
    · -- The root may have stayed untouched, but it has no body.
      have hx' : s.graph.node? CallGraph.root = some x := hx
      rw [hinv.root] at hx'
      cases hx'
      exact absurd hb (hroot b)
  · intro i entry hentry
    have hmem : (entry, i) ∈ entrypoints.zipIdx := List.mem_zipIdx_iff_getElem?.mpr hentry
    obtain ⟨b, hb, hall⟩ := hinv.seeded (entry, i) hmem
    refine ⟨b, hb, ?_, ?_⟩
    · intro hinst r hr
      have hr' : some r ∈ entryReceivers p.hierarchy entry b.isStatic := by
        rw [hinst]
        exact mem_entryReceivers_some hr
      exact entrySeeded_of_seededFor (hall (some r) hr')
    · intro hnone
      exact entrySeeded_of_seededFor (hall none (mem_entryReceivers_none hnone))

/-! ### A method that calls itself -/

namespace Copying

/-- A class with a method that allocates a cell and calls itself on it. -/
def cell : ClassInfo :=
  (ClassInfo.concrete .application "shop.Cell").declare "copy" ["shop.Cell"] "shop.Cell" false false

def copy : MethodRef := ⟨cell.typeRef, "copy", [cell.name], cell.name⟩

def again : CallSite := ⟨1, copy, .virtual⟩

def body : Body where
  method := copy
  isStatic := false
  params := [1, 2]
  instructions :=
    [.new 0 3 ⟨0, cell.typeRef⟩ 1, .invoke 1 (some 5) [3, 4] again 2, .ret 2 (some 5) 3]
  phis := [⟨4, [2, 3]⟩]
  symbols := ⟨[(1, .param 0 cell.name), (2, .param 1 cell.name), (3, .instruction 0), (4, .phi 0),
    (5, .instruction 1)], 5, by decide⟩

def store : BodyStore := ⟨[.body body]⟩

def plan : Plan :=
  ⟨.ofClasses ⟨"shop"⟩ [ClassInfo.root .primordial, cell] (by decide), store.provider, 1⟩

/-- The node that calls itself, run on the cell that it allocates. -/
def inner : Node :=
  ⟨copy, ⟨⟨[⟨again, copy⟩]⟩,
    some (Instance.allocated copy ⟨0, cell.typeRef⟩ ⟨[⟨again, copy⟩]⟩)⟩⟩

theorem built : ∃ g, (build plan [copy] .unlimited).result = .ok g ∧
    g.graph.node? 3 = some inner ∧ ⟨3, again, 3⟩ ∈ g.graph.edges :=
  exists_built_of_any 20 (by decide +kernel)

theorem build_closed_under_flow_copying :
    (∀ b, plan.provider.request CallGraph.rootMethod ≠ .ok (some b)) ∧
    ∃ g, (build plan [copy] .unlimited).result = .ok g ∧
      g.graph.node? 3 = some inner ∧ ⟨3, again, 3⟩ ∈ g.graph.edges ∧
      plan.provider.request copy = .ok (some body) ∧ FlowClosed plan g 3 inner body ∧
      Instance.synthetic cell.typeRef ∈ seeds plan.hierarchy cell.name ∧
      EntrySeeded plan g copy 0 body (some (Instance.synthetic cell.typeRef)) := by
  have hroot : ∀ b, plan.provider.request CallGraph.rootMethod ≠ .ok (some b) := by
    intro b hb
    have hnone : plan.provider.request CallGraph.rootMethod = .ok none := by rfl
    rw [hnone] at hb
    cases hb
  have hseed : Instance.synthetic cell.typeRef ∈ seeds plan.hierarchy cell.name := by
    decide +kernel
  have hbody : plan.provider.request copy = .ok (some body) := by rfl
  obtain ⟨g, hg, hnode, hloop⟩ := built
  obtain ⟨hflow, hentry⟩ := build_closed_under_flow plan [copy] .unlimited g hroot hg
  obtain ⟨b, hb, hinst, -⟩ := hentry 0 copy rfl
  rw [hbody] at hb
  cases hb
  exact ⟨hroot, g, hg, hnode, hloop, hbody, hflow 3 inner body hnode hbody, hseed,
    hinst rfl _ hseed⟩

end Copying

end Construction
end StreamVerdict
