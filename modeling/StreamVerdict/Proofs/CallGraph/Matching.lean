/-
  Which objects were created through a call, told by the objects alone.

  Matching looks for the nodes that allocated an object and reads their call strings.  In a
  built call graph such a node is there for every allocated object, and its call string is the
  one that the object carries.  So the answer depends on the object's own calling context, and
  the context is called too short only if it does not reach the application.
-/
import StreamVerdict.CallGraph.Matching
import StreamVerdict.Proofs.CallGraph.Origins

namespace StreamVerdict

namespace Instance

/-- The object was allocated while the call was being made from the method. -/
def MadeThrough (i : Instance) (site : CallSite) (enclosing : MethodRef) : Prop :=
  ∃ f ∈ i.heapContext.frames, f.callSite = site ∧ f.method = enclosing

/-- Some call that led to the allocation of the object belongs to the application. -/
def SeesApplication (i : Instance) : Prop := ∃ f ∈ i.heapContext.frames, f.isApplication = true

end Instance

namespace BuiltGraph

variable {g : BuiltGraph} {i : Instance}

theorem mem_creationNodes {m : MethodRef} {site : NewSite} (hi : i.newSite? = some (m, site))
    {n : Nat} :
    n ∈ g.creationNodes i ↔ ∃ x, g.graph.node? n = some x ∧ x.method = m ∧
      x.context.callString = i.heapContext := by
  simp only [creationNodes, hi, List.mem_filter, List.mem_range]
  constructor
  · rintro ⟨-, hany⟩
    rcases hx : g.graph.node? n with _ | x
    · rw [hx] at hany
      cases hany
    · rw [hx] at hany
      exact ⟨x, rfl, of_decide_eq_true hany⟩
  · rintro ⟨x, hx, hmatch⟩
    refine ⟨CallGraph.node?_lt hx, ?_⟩
    rw [hx]
    exact decide_eq_true hmatch

/-- Whichever node is found, it is the object's own context that is read. -/
theorem mem_creationFrames (hi : i.newSite?.isSome = true) (hne : g.creationNodes i ≠ [])
    {f : Frame} : f ∈ g.creationFrames i ↔ f ∈ i.heapContext.frames := by
  obtain ⟨⟨m, site⟩, hi⟩ := Option.isSome_iff_exists.mp hi
  rw [creationFrames, List.mem_flatMap]
  constructor
  · rintro ⟨n, hn, hf⟩
    obtain ⟨x, hx, -, hcontext⟩ := (mem_creationNodes hi).mp hn
    simp only [hx, hcontext] at hf
    exact hf
  · intro hf
    obtain ⟨n, hn⟩ := List.exists_mem_of_ne_nil _ hne
    obtain ⟨x, hx, -, hcontext⟩ := (mem_creationNodes hi).mp hn
    refine ⟨n, hn, ?_⟩
    simp only [hx, hcontext]
    exact hf

/-- Where the allocating nodes are found, the answer is read off the object's own context. -/
theorem createdThrough_cases (hne : i.newSite?.isSome = true → g.creationNodes i ≠ [])
    (depth : Nat) (site : CallSite) (enclosing : MethodRef) :
    (i.newSite?.isSome = true ∧ i.MadeThrough site enclosing ∧
      g.createdThrough depth i site enclosing = .ok true) ∨
    (i.newSite?.isSome = true ∧ ¬ i.MadeThrough site enclosing ∧ ¬ i.SeesApplication ∧
      g.createdThrough depth i site enclosing = .error (.insufficientDepth i.text depth)) ∨
    ((i.newSite? = none ∨ ¬ i.MadeThrough site enclosing ∧ i.SeesApplication) ∧
      g.createdThrough depth i site enclosing = .ok false) := by
  rw [createdThrough]
  rcases hi : i.newSite? with _ | s
  · exact Or.inr (Or.inr ⟨Or.inl rfl, rfl⟩)
  · have hsome : i.newSite?.isSome = true := by
      rw [hi]
      rfl
    have hframes := fun f => mem_creationFrames (f := f) hsome (hne hsome)
    have hthrough : ((g.creationFrames i).any fun f => f.callSite = site ∧ f.method = enclosing) =
        true ↔ i.MadeThrough site enclosing := by
      simp only [List.any_eq_true, decide_eq_true_eq, hframes]
      rfl
    have hsees : (g.creationFrames i).any Frame.isApplication = true ↔ i.SeesApplication := by
      simp only [List.any_eq_true, hframes]
      rfl
    simp only [Option.isNone_some, Bool.false_eq_true, if_false, Option.isSome_some, true_and,
      reduceCtorEq, false_or]
    by_cases hmade : i.MadeThrough site enclosing
    · rw [if_pos (hthrough.mpr hmade)]
      exact Or.inl ⟨hmade, rfl⟩
    · rw [if_neg (mt hthrough.mp hmade)]
      by_cases happ : i.SeesApplication
      · rw [if_pos (hsees.mpr happ)]
        exact Or.inr (Or.inr ⟨⟨hmade, happ⟩, rfl⟩)
      · rw [if_neg (mt hsees.mp happ)]
        exact Or.inr (Or.inl ⟨hmade, happ, rfl⟩)

end BuiltGraph

namespace Construction

/-- Every allocated object of a built call graph has a node that allocated it, and so matching
    is decided by the object's calling context: the object was created through a call if it is
    an allocated one and the call is in its context; else the context is too short if the object
    is an allocated one and no call of the context belongs to the application; and else it was
    not created through the call. -/
theorem build_createdThrough_iff (p : Plan) (entrypoints : List MethodRef) (monitor : Monitor)
    (g : BuiltGraph) (h : (build p entrypoints monitor).result = .ok g) (i : Instance)
    (hi : i ∈ g.pointsTo.instances) :
    (i.newSite?.isSome = true → g.creationNodes i ≠ []) ∧
    ∀ depth site enclosing,
      (g.createdThrough depth i site enclosing = .ok true ↔
        i.newSite?.isSome = true ∧ i.MadeThrough site enclosing) ∧
      (g.createdThrough depth i site enclosing = .error (.insufficientDepth i.text depth) ↔
        ¬ i.MadeThrough site enclosing ∧ i.newSite?.isSome = true ∧ ¬ i.SeesApplication) ∧
      (g.createdThrough depth i site enclosing = .ok false ↔
        ¬ (i.newSite?.isSome = true ∧ i.MadeThrough site enclosing) ∧
          ¬ (i.newSite?.isSome = true ∧ ¬ i.SeesApplication)) := by
  have hne : i.newSite?.isSome = true → g.creationNodes i ≠ [] := by
    intro hsome
    cases origin_of_build h hi with
    | outside t => cases hsome
    | @allocated _ n x hx ho =>
        obtain ⟨b, k, v, site, line, -, -, rfl⟩ := ho
        have hn := (BuiltGraph.mem_creationNodes (g := g) (n := n)
          (i := Instance.allocated x.method site x.context.callString) rfl).mpr ⟨x, hx, rfl, rfl⟩
        exact List.ne_nil_of_mem hn
  refine ⟨hne, ?_⟩
  intro depth site enclosing
  rcases BuiltGraph.createdThrough_cases hne depth site enclosing with
    ⟨hsome, hmade, heq⟩ | ⟨hsome, hmade, happ, heq⟩ | ⟨hnot, heq⟩
  · simp [heq, hsome, hmade]
  · simp [heq, hsome, hmade, happ]
  · rcases hnot with hnone | ⟨hmade, happ⟩
    · simp [heq, hnone]
    · simp [heq, hmade, happ]

namespace Copying

/-- The cell that the inner call allocates, with that call as its context. -/
def innerCell : Instance := Instance.allocated copy ⟨0, cell.typeRef⟩ ⟨[⟨again, copy⟩]⟩

theorem built_innerCell : ∃ g, (build plan [copy] .unlimited).result = .ok g ∧
    innerCell ∈ g.pointsTo.instances :=
  exists_built_of_any 40 (by decide +kernel)

/-- The inner cell was created through the inner call and through no other. -/
theorem build_createdThrough_iff_copying :
    ∃ g, (build plan [copy] .unlimited).result = .ok g ∧ innerCell ∈ g.pointsTo.instances ∧
      g.creationNodes innerCell ≠ [] ∧
      g.createdThrough 1 innerCell again copy = .ok true ∧
      g.createdThrough 1 innerCell ⟨7, copy, .virtual⟩ copy = .ok false := by
  obtain ⟨g, hg, hcell⟩ := built_innerCell
  obtain ⟨hne, hmatch⟩ := build_createdThrough_iff plan [copy] .unlimited g hg innerCell hcell
  refine ⟨g, hg, hcell, hne rfl, (hmatch 1 again copy).1.mpr ⟨rfl, ?_⟩,
    (hmatch 1 ⟨7, copy, .virtual⟩ copy).2.2.mpr ⟨?_, ?_⟩⟩
  · exact ⟨⟨again, copy⟩, List.mem_singleton.mpr rfl, rfl, rfl⟩
  · rintro ⟨-, f, hf, hsite, -⟩
    rw [List.mem_singleton.mp hf] at hsite
    cases hsite
  · rintro ⟨-, happ⟩
    exact happ ⟨⟨again, copy⟩, List.mem_singleton.mpr rfl, rfl⟩

end Copying

end Construction
end StreamVerdict
