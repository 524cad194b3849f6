/-
  Creation and use of the objects of a built call graph.

  An object starts unobserved, is created by its allocation and used by calls.  In a built call
  graph every node is called from one that was there before it, back to an entry point.  So as
  long as the object is not created anywhere, its being unobserved is carried down to every
  node, and no allocation is missed.  An action is known by its name alone, and so a call to a
  method that is named like the allocation counts as one.
-/
import StreamVerdict.Proofs.CallGraph.Origins
import StreamVerdict.Proofs.Typestate.LeastSolution

namespace StreamVerdict

/-! ### The protocol of creation and use -/

namespace Protocol

theorem eventTracking_transitions : eventTracking.transitions =
    [⟨used, .anyCall, used⟩, ⟨created, .anyCall, used⟩, ⟨unobserved, .alloc, created⟩] := by
  decide +kernel

theorem eventTracking_after_alloc_unobserved :
    eventTracking.after .alloc unobserved = created := by decide +kernel

theorem eventTracking_after_alloc_created : eventTracking.after .alloc created = created := by
  decide +kernel

theorem eventTracking_after_unobserved {a : Action} (h : a ≠ .alloc) :
    eventTracking.after a unobserved = unobserved := by
  have hsource : ¬ used = unobserved ∧ ¬ created = unobserved := by decide
  have hnone : ∀ a', a' ≠ Action.alloc → eventTracking.labelled? unobserved a' = none := by
    intro a' ha'
    simp [labelled?, eventTracking_transitions, hsource, ha'.symm]
  rw [after, next?, hnone a h, hnone .anyCall (by decide)]
  simp

end Protocol

namespace Typestate

section

variable {p : Problem} {E X : Sets} {R P : Set State} {n : Nat} {x : Node}

/-! ### Sets that no instruction leads out of -/

theorem joined_subset {cs : List Nat} {C : Set State} (hX : ∀ m, X m ⊆ P) (hC : C ⊆ P) :
    joined X cs C ⊆ P := by
  induction cs generalizing C with
  | nil => exact hC
  | cons c cs ih => exact ih (Set.union_subset hC (hX c))

theorem callsWithin_const {cs : List Nat} {C : Set State} (hC : C ⊆ P) :
    CallsWithin (fun _ => P) (fun _ => P) P cs C := by
  induction cs generalizing C with
  | nil => trivial
  | cons c cs ih => exact ⟨hC, hC, ih (Set.union_subset hC Set.Subset.rfl)⟩

theorem walkedWithin_const {is : List Instruction} {C : Set State}
    (h : ∀ i ∈ is, ∀ q ∈ P, afterInstruction p n x i q ∈ P) (hC : C ⊆ P) :
    WalkedWithin p (fun _ => P) (fun _ => P) P n x is C := by
  induction is generalizing C with
  | nil => exact walkedWithin_nil.mpr ⟨hC, hC⟩
  | cons i is ih =>
      have hmoved : afterInstruction p n x i '' C ⊆ P := by
        rintro _ ⟨q, hq, rfl⟩
        exact h i List.mem_cons_self q (hC hq)
      refine walkedWithin_cons.mpr ⟨hC, fun _ => ⟨hmoved, hmoved⟩, callsWithin_const hmoved, ?_⟩
      exact ih (fun j hj => h j (List.mem_cons_of_mem _ hj))
        (joined_subset (fun _ => Set.Subset.rfl) hmoved)

/-- A set with the initial state that no instruction leads out of has all that a solve comes to
    know. -/
theorem Settled.recorded_subset {s : Progress} (h : Settled p s)
    (hinitial : p.protocol.initial ∈ P)
    (hclosed : ∀ n x b, p.graph.graph.node? n = some x → p.graph.body? n = some b →
      ∀ i ∈ b.instructions, ∀ q ∈ P, afterInstruction p n x i q ∈ P) :
    s.recorded p ⊆ P := by
  have hsolves : SolvesWithin p (fun _ => P) (fun _ => P) P :=
    { initial := fun _ _ => hinitial
      initial_mem := hinitial
      entry_subset := fun _ => Set.Subset.rfl
      exit_subset := fun _ => Set.Subset.rfl
      walks := fun n x b hx hb => walkedWithin_const (hclosed n x b hx hb) Set.Subset.rfl }
  exact (Below.of_reaches hsolves h.reaches).recorded

/-! ### What happens to an object -/

/-- A call that is not static may be made on the object. -/
def MayCall (g : BuiltGraph) (i : Instance) (site : CallSite) : Prop :=
  ∃ n b k result args line v, g.body? n = some b ∧
    Instruction.invoke k result args site line ∈ b.instructions ∧ site.kind.isStatic = false ∧
    args.head? = some v ∧ i ∈ g.pointsTo.get n v

/-- An instruction of some node does this to the object. -/
def Happens (p : Problem) (a : Action) : Prop :=
  ∃ n x b i, p.graph.graph.node? n = some x ∧ p.graph.body? n = some b ∧ i ∈ b.instructions ∧
    actionAt? p n x i = some a

/-- What happens to an object is its allocation, or a call on it by the name of the method. -/
theorem Happens.cases {a : Action} (h : Happens p a) :
    (a = .alloc ∧ p.object.newSite?.isSome = true) ∨
      ∃ site, MayCall p.graph p.object site ∧ a = ⟨site.declaredTarget.name⟩ := by
  obtain ⟨n, x, b, i, -, hb, hi, haction⟩ := h
  cases actionAt?_eq_some_iff.mp haction with
  | allocates hobject =>
      rw [← hobject]
      exact Or.inl ⟨rfl, rfl⟩
  | @calls k result args site line v hstatic hv hmay =>
      exact Or.inr ⟨site, ⟨n, b, k, result, args, line, v, hb, hi, hstatic, hv, hmay⟩, rfl⟩

theorem MayCall.happens {site : CallSite} (h : MayCall p.graph p.object site) :
    Happens p ⟨site.declaredTarget.name⟩ := by
  obtain ⟨n, b, k, result, args, line, v, hb, hi, hstatic, hv, hmay⟩ := h
  obtain ⟨x, hx⟩ := node?_of_body? hb
  exact ⟨n, x, b, _, hx, hb, hi, actionAt?_eq_some_iff.mpr (Acts.calls hstatic hv hmay)⟩

/-- A set is closed if everything that happens to the object leads from the set into it. -/
theorem Settled.recorded_subset_of_happens {s : Progress} (h : Settled p s)
    (hinitial : p.protocol.initial ∈ P)
    (hclosed : ∀ a, Happens p a → ∀ q ∈ P, p.protocol.after a q ∈ P) : s.recorded p ⊆ P := by
  refine h.recorded_subset hinitial ?_
  intro n x b hx hb i hi q hq
  rw [afterInstruction]
  rcases haction : actionAt? p n x i with _ | a
  · exact hq
  · exact hclosed a ⟨n, x, b, i, hx, hb, hi, haction⟩ q hq

/-! ### No allocation is missed -/

/-- As long as nothing is created, the object is unobserved at each instruction of a walk: none
    is its allocation, and it is unobserved when the called nodes are entered. -/
theorem WalkedWithin.unobserved (hprotocol : p.protocol = .eventTracking)
    {is : List Instruction} {C : Set State} (h : WalkedWithin p E X R n x is C)
    (hR : Protocol.created ∉ R) (hC : Protocol.unobserved ∈ C) :
    ∀ i ∈ is, actionAt? p n x i ≠ some .alloc ∧
      ∀ c ∈ calledBy p n i, Protocol.unobserved ∈ E c := by
  induction is generalizing C with
  | nil => exact fun i hi => absurd hi List.not_mem_nil
  | cons i is ih =>
      obtain ⟨-, -, hcalls, hrest⟩ := walkedWithin_cons.mp h
      have hmet := (subset_joined X (calledBy p n i) _).trans hrest.subset
      have hafter := Set.mem_image_of_mem (afterInstruction p n x i) hC
      -- Behind its allocation the object would be created, which is not met.
      have haction : actionAt? p n x i ≠ some .alloc := by
        intro halloc
        rw [afterInstruction, halloc, hprotocol] at hafter
        exact hR (Protocol.eventTracking_after_alloc_unobserved ▸ hmet hafter)
      have hstays : afterInstruction p n x i Protocol.unobserved = Protocol.unobserved := by
        rw [afterInstruction]
        rcases ha : actionAt? p n x i with _ | a
        · rfl
        · rw [hprotocol]
          refine Protocol.eventTracking_after_unobserved ?_
          rintro rfl
          exact haction ha
      rw [hstays] at hafter
      rw [List.forall_mem_cons]
      exact ⟨⟨haction, fun c hc => hcalls.enters hc hafter⟩,
        ih hrest (subset_joined X _ _ hafter)⟩

end

section

variable {plan : Construction.Plan} {entrypoints : List MethodRef} {buildMonitor : Monitor}
  {g : BuiltGraph} {i : Instance}

/-- A node with a body is not the root, if the root has none. -/
theorem ne_root_of_request (h : (Construction.build plan entrypoints buildMonitor).result = .ok g)
    (hroot : ∀ b, plan.provider.request CallGraph.rootMethod ≠ .ok (some b)) {n : Nat} {x : Node}
    {b : Body} (hx : g.graph.node? n = some x)
    (hb : plan.provider.request x.method = .ok (some b)) :
    n ≠ CallGraph.root := by
  rintro rfl
  obtain ⟨s, hinv, -, rfl⟩ := Construction.invariant_of_build h
  have hsame := hinv.root.symm.trans hx
  cases hsame
  exact hroot b hb

/-- As long as nothing is created, the object is unobserved when a node of a built call graph is
    entered. -/
theorem unobserved_mem_entry
    (h : (Construction.build plan entrypoints buildMonitor).result = .ok g)
    (hroot : ∀ b, plan.provider.request CallGraph.rootMethod ≠ .ok (some b)) {E X : Sets}
    {R : Set State} (hsolves : SolvesWithin ⟨g, .eventTracking, i⟩ E X R)
    (hR : Protocol.created ∉ R) {n : Nat} {x : Node} (hx : g.graph.node? n = some x)
    (hn : n ≠ CallGraph.root) : Protocol.unobserved ∈ E n := by
  -- By induction along the calls that brought the nodes into the graph.
  induction n using Nat.strongRecOn generalizing x with
  | ind n ih =>
      rcases (Construction.grounded_of_build h).called n x hx with hzero | ⟨m, site, hlt, he⟩
      · exact absurd hzero hn
      · obtain ⟨s, hinv, -, hg⟩ := Construction.invariant_of_build h
        have hedge : g.graph.IsEntry ⟨m, site, n⟩ ∨ ∃ y b, g.graph.node? m = some y ∧
            plan.provider.request y.method = .ok (some b) ∧
            Construction.Stems plan y b s ⟨m, site, n⟩ := by
          subst hg
          exact hinv.edges _ he
        -- The node is an entry point, or a call in the body of an earlier node leads to it.
        rcases hedge with hentry | ⟨y, b, hy, hb, k, result, args, line, -, -, hins, -⟩
        · exact hsolves.initial n hentry.2
        · have hm := ne_root_of_request h hroot hy hb
          have hbody := Construction.body?_of_build h hy hm hb
          have hwalked := hsolves.walks m y b hy hbody
          have hcalls := (hwalked.unobserved rfl hR (ih m hlt hy hm) _ hins).2
          exact hcalls n (CallGraph.mem_targets.mpr he)

/-- An object that is not created anywhere stays unobserved. -/
theorem Settled.recorded_eq_unobserved {s : Progress} (hs : Settled ⟨g, .eventTracking, i⟩ s)
    (hnot : ¬ Happens ⟨g, .eventTracking, i⟩ .alloc) :
    s.recorded ⟨g, .eventTracking, i⟩ = {Protocol.unobserved} := by
  refine Set.Subset.antisymm (hs.recorded_subset_of_happens rfl ?_) ?_
  · rintro a ha q rfl
    refine Protocol.eventTracking_after_unobserved ?_
    rintro rfl
    exact hnot ha
  · exact Set.singleton_subset_iff.mpr hs.solvesWithin.initial_mem

/-- In a built call graph an object may be created just if something that counts as its
    allocation happens to it. -/
theorem Settled.created_mem_recorded_iff
    (h : (Construction.build plan entrypoints buildMonitor).result = .ok g)
    (hroot : ∀ b, plan.provider.request CallGraph.rootMethod ≠ .ok (some b)) {s : Progress}
    (hs : Settled ⟨g, .eventTracking, i⟩ s) :
    Protocol.created ∈ s.recorded ⟨g, .eventTracking, i⟩ ↔
      Happens ⟨g, .eventTracking, i⟩ .alloc := by
  constructor
  · intro hcreated
    by_contra hnot
    rw [hs.recorded_eq_unobserved hnot] at hcreated
    exact absurd hcreated (by decide)
  · rintro ⟨n, x, b, ins, hx, hb, hins, haction⟩
    by_contra hnot
    have hn := ne_root_of_request h hroot hx (Construction.request_of_body? h hx hb)
    have hentry := unobserved_mem_entry h hroot hs.solvesWithin hnot hx hn
    have hwalked := hs.solvesWithin.walks n x b hx hb
    exact (hwalked.unobserved rfl hnot hentry ins hins).1 haction

/-- The allocation of an object of a built call graph happens to it. -/
theorem happens_alloc_of_newSite?
    (h : (Construction.build plan entrypoints buildMonitor).result = .ok g)
    (hroot : ∀ b, plan.provider.request CallGraph.rootMethod ≠ .ok (some b))
    (hi : i ∈ g.pointsTo.instances) (hnew : i.newSite?.isSome = true) :
    Happens ⟨g, .eventTracking, i⟩ .alloc := by
  cases Construction.origin_of_build h hi with
  | outside t => cases hnew
  | @allocated _ n x hx ho =>
      obtain ⟨b, k, v, site, line, hb, hins, hobject⟩ := ho
      have hn := ne_root_of_request h hroot hx hb
      exact ⟨n, x, b, _, hx, Construction.body?_of_build h hx hn hb, hins,
        actionAt?_eq_some_iff.mpr (Acts.allocates hobject.symm)⟩

/-- An object on which no call may be made is never used. -/
theorem Settled.used_notMem_recorded {s : Progress} (hs : Settled ⟨g, .eventTracking, i⟩ s)
    (hnot : ∀ site, ¬ MayCall g i site) :
    Protocol.used ∉ s.recorded ⟨g, .eventTracking, i⟩ := by
  have honly : s.recorded ⟨g, .eventTracking, i⟩ ⊆ {Protocol.unobserved, Protocol.created} := by
    refine hs.recorded_subset_of_happens (Or.inl rfl) ?_
    intro a ha q hq
    rcases ha.cases with ⟨rfl, -⟩ | ⟨site, hsite, -⟩
    · rcases hq with rfl | rfl
      · exact Or.inr Protocol.eventTracking_after_alloc_unobserved
      · exact Or.inr Protocol.eventTracking_after_alloc_created
    · exact absurd hsite (hnot site)
  exact fun hused => absurd (honly hused) (by decide)

end

/-! ### The states of an object -/

/-- In a built call graph every allocated object may be unobserved and created.  An object from
    outside is unobserved and nothing else, unless a method that is named like the allocation
    may be called on it.  No object is used unless it may be created and a call may be made on
    it. -/
theorem eventTracking_statesOf (plan : Construction.Plan) (entrypoints : List MethodRef)
    (buildMonitor : Monitor) (g : BuiltGraph)
    (hroot : ∀ b, plan.provider.request CallGraph.rootMethod ≠ .ok (some b))
    (h : (Construction.build plan entrypoints buildMonitor).result = .ok g)
    (limits : SolverLimits) (hierarchy : Hierarchy) (tracked : TypeName) (monitor : Monitor)
    (S : Solution)
    (hsolve : (solve limits g hierarchy .eventTracking tracked monitor).2 = .ok S)
    (i : Instance) (hi : i ∈ objectsOf g hierarchy tracked) :
    (i.newSite?.isSome = true →
      Protocol.unobserved ∈ S.statesOf i ∧ Protocol.created ∈ S.statesOf i) ∧
    (i.newSite? = none →
      ((∀ q, q ∈ S.statesOf i ↔ q = Protocol.unobserved) ↔
        ∀ site, MayCall g i site → site.declaredTarget.name ≠ Action.alloc.name)) ∧
    (Protocol.used ∈ S.statesOf i →
      Protocol.created ∈ S.statesOf i ∧ ∃ site, MayCall g i site) := by
  obtain ⟨s, hs, hstates⟩ := statesOf_eq_recorded hsolve hi
  have hmem : ∀ q, q ∈ S.statesOf i ↔ q ∈ s.recorded ⟨g, .eventTracking, i⟩ := by
    intro q
    rw [← hstates]
    rfl
  have hcreated := hs.created_mem_recorded_iff h hroot
  have hthere : i ∈ g.pointsTo.instances := (List.mem_filter.mp hi).1
  simp only [hmem]
  refine ⟨?_, ?_, ?_⟩
  · intro hnew
    exact ⟨hs.solvesWithin.initial_mem,
      hcreated.mpr (happens_alloc_of_newSite? h hroot hthere hnew)⟩
  · intro houtside
    constructor
    · intro honly site hsite hname
      have halloc : Happens ⟨g, .eventTracking, i⟩ .alloc := by
        have hcall := MayCall.happens (p := ⟨g, .eventTracking, i⟩) hsite
        rwa [hname] at hcall
      exact absurd ((honly _).mp (hcreated.mpr halloc)) (by decide)
    · intro hnames q
      -- No node allocates an object from outside, so nothing else counts as its allocation.
      have hnot : ¬ Happens ⟨g, .eventTracking, i⟩ .alloc := by
        intro halloc
        rcases halloc.cases with ⟨-, hnew⟩ | ⟨site, hsite, hname⟩
        · simp [houtside] at hnew
        · exact hnames site hsite (congrArg Action.name hname).symm
      rw [hs.recorded_eq_unobserved hnot]
      rfl
  · intro hused
    constructor
    · rw [hcreated]
      by_contra hnot
      rw [hs.recorded_eq_unobserved hnot] at hused
      exact absurd hused (by decide)
    · by_contra hnone
      exact hs.used_notMem_recorded (fun site hsite => hnone ⟨site, hsite⟩) hused

/-! ### A box that is handed in and one that is made -/

namespace Handed

def box (name : String) : ClassInfo :=
  (ClassInfo.concrete .application "shop.Box").declare name [] "void" false false

def hierarchy (name : String) : Hierarchy :=
  .ofClasses ⟨"shop"⟩ [ClassInfo.root .primordial, box name]
    (show ([ClassInfo.root .primordial, box ""].map ClassInfo.name).Nodup by decide)

def main : MethodRef :=
  ⟨⟨.application, ⟨"Lshop/Main"⟩⟩, "main", [(box "").name], TypeName.void⟩

/-- A call to the method of a box. -/
def call (name : String) (pc : Nat) : CallSite :=
  ⟨pc, ⟨(box name).typeRef, name, [], TypeName.void⟩, .virtual⟩

/-- Makes a box, and calls the method of that box and of the one that is handed in. -/
def mainBody (name : String) : Body :=
  ⟨main, true, [1],
    [.new 0 2 ⟨0, (box name).typeRef⟩ 1, .invoke 1 none [2] (call name 1) 2,
      .invoke 2 none [1] (call name 2) 3, .ret 3 none 4],
    [], ⟨[(1, .param 0 (box name).name), (2, .instruction 0)], 2, by simp⟩⟩

def plan (name : String) : Construction.Plan :=
  ⟨hierarchy name, BodyStore.provider ⟨[.body (mainBody name)]⟩, 1⟩

def given : Instance := Instance.synthetic (box "").typeRef

def made : Instance :=
  Instance.allocated main ⟨0, (box "").typeRef⟩ ⟨[⟨⟨0, main, .static⟩, CallGraph.rootMethod⟩]⟩

theorem built_use : ∃ g, (Construction.build (plan "use") [main] .unlimited).result = .ok g ∧
    g.bodies = [mainBody "use"] ∧
    made ∈ objectsOf g (hierarchy "use") (box "use").name ∧
    given ∈ objectsOf g (hierarchy "use") (box "use").name ∧
    ((solve {} g (hierarchy "use") .eventTracking (box "use").name .unlimited).2.toOption.any
      fun S => Protocol.used ∈ S.statesOf made) = true :=
  Construction.exists_built_of_any 20 (by decide +kernel)

theorem mayCall_use {g : BuiltGraph} (h : g.bodies = [mainBody "use"]) {i : Instance}
    {site : CallSite} (hsite : MayCall g i site) : site.declaredTarget.name = "use" := by
  obtain ⟨n, b, k, result, args, line, v, hb, hins, -⟩ := hsite
  obtain ⟨x, -, hfind⟩ := Option.bind_eq_some_iff.mp hb
  have hmem := List.mem_of_find?_eq_some hfind
  rw [h, List.mem_singleton] at hmem
  subst hmem
  simp only [mainBody, List.mem_cons, reduceCtorEq, Instruction.invoke.injEq, List.not_mem_nil,
    false_or, or_false] at hins
  rcases hins with ⟨-, -, -, rfl, -⟩ | ⟨-, -, -, rfl, -⟩
  · rfl
  · rfl

/-- The box that is made is created and used, and the one that is handed in stays unobserved
    though it is called too. -/
theorem eventTracking_statesOf_handed :
    (∀ b, (plan "use").provider.request CallGraph.rootMethod ≠ .ok (some b)) ∧
    ∃ g S, (Construction.build (plan "use") [main] .unlimited).result = .ok g ∧
      (solve {} g (hierarchy "use") .eventTracking (box "use").name .unlimited).2 = .ok S ∧
      made ∈ objectsOf g (hierarchy "use") (box "use").name ∧
      given ∈ objectsOf g (hierarchy "use") (box "use").name ∧
      (Protocol.unobserved ∈ S.statesOf made ∧ Protocol.created ∈ S.statesOf made) ∧
      Protocol.used ∈ S.statesOf made ∧ (∃ site, MayCall g made site) ∧
      ∀ q, q ∈ S.statesOf given ↔ q = Protocol.unobserved := by
  have hroot : ∀ b, (plan "use").provider.request CallGraph.rootMethod ≠ .ok (some b) := by
    intro b hb
    cases hb
  obtain ⟨g, hg, hbodies, hmade, hgiven, hany⟩ := built_use
  obtain ⟨S, hsolve, hused⟩ := exists_ok_of_any hany
  have hall := eventTracking_statesOf (plan "use") [main] .unlimited g hroot hg {}
    (hierarchy "use") (box "use").name .unlimited S hsolve
  refine ⟨hroot, g, S, hg, hsolve, hmade, hgiven, (hall made hmade).1 rfl, hused,
    ((hall made hmade).2.2 hused).2, ((hall given hgiven).2.1 rfl).mpr ?_⟩
  intro site hsite hname
  rw [mayCall_use hbodies hsite] at hname
  exact absurd hname (by decide)

/-- Where the method of the box is named like the allocation, the box that is handed in may be
    created. -/
theorem not_only_unobserved :
    (∀ b, (plan "<alloc>").provider.request CallGraph.rootMethod ≠ .ok (some b)) ∧
    ∃ g S, (Construction.build (plan "<alloc>") [main] .unlimited).result = .ok g ∧
      (solve {} g (hierarchy "<alloc>") .eventTracking (box "<alloc>").name .unlimited).2 = .ok S ∧
      given ∈ objectsOf g (hierarchy "<alloc>") (box "<alloc>").name ∧ given.newSite? = none ∧
      ¬ ∀ q, q ∈ S.statesOf given ↔ q = Protocol.unobserved := by
  have hroot : ∀ b, (plan "<alloc>").provider.request CallGraph.rootMethod ≠ .ok (some b) := by
    intro b hb
    cases hb
  have hbuilt : ∃ g, (Construction.build (plan "<alloc>") [main] .unlimited).result = .ok g ∧
      given ∈ objectsOf g (hierarchy "<alloc>") (box "<alloc>").name ∧
      ((solve {} g (hierarchy "<alloc>") .eventTracking (box "<alloc>").name
        .unlimited).2.toOption.any fun S => Protocol.created ∈ S.statesOf given) = true :=
    Construction.exists_built_of_any 20 (by decide +kernel)
  obtain ⟨g, hg, hgiven, hany⟩ := hbuilt
  obtain ⟨S, hsolve, hcreated⟩ := exists_ok_of_any hany
  refine ⟨hroot, g, S, hg, hsolve, hgiven, rfl, ?_⟩
  intro honly
  exact absurd ((honly _).mp hcreated) (by decide)

end Handed

end Typestate
end StreamVerdict
