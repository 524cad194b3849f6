/-
  What follows from the entry points of a program.

  The rules say which methods are run in which contexts, where calls lead, and which objects
  values may hold.  They speak of nodes by method and context, and know nothing of positions in
  a graph, of a queue or of an order of work.  The lemmas say what the functions of the
  construction read off points-to sets, in the terms of the rules.
-/
import StreamVerdict.Proofs.CallGraph.FlowClosure

namespace StreamVerdict
namespace Construction

/-! ### Rules -/

/-- What can follow from the entry points. -/
inductive Fact where
  /-- A method is run in a context. -/
  | node (x : Node)
  /-- A call with the given arguments may run a method, on a receiver or without. -/
  | target (x : Node) (args : List ValueNumber) (site : CallSite) (method : MethodRef)
      (receiver : Option Instance)
  /-- A call leads from one node to another. -/
  | edge (x : Node) (site : CallSite) (y : Node)
  /-- A value of a node may hold an object. -/
  | holds (x : Node) (v : ValueNumber) (o : Instance)

/-- The object comes from outside of the program, and its class is a concrete one at or below
    the given class type. -/
def FromOutside (h : Hierarchy) (t : TypeName) (o : Instance) : Prop :=
  t.isClass = true ∧ ∃ c ∈ h.concreteSubtypes t, o = Instance.synthetic c.typeRef

/-- What an entry point is run on: an instance method on the objects from outside that its
    declaring class admits, any other method, and one without such objects, on nothing. -/
inductive EntryReceiver (h : Hierarchy) (entry : MethodRef) (b : Body) :
    Option Instance → Prop where
  | object {o : Instance} (hinst : b.isStatic = false)
      (ho : FromOutside h entry.declaringClass.name o) : EntryReceiver h entry b (some o)
  | nothing (hnone : b.isStatic = true ∨ ∀ o, ¬ FromOutside h entry.declaringClass.name o) :
      EntryReceiver h entry b none

/-- The entry point at position `i` has a body and is run on the receiver. -/
structure IsEntryPoint (p : Plan) (entrypoints : List MethodRef) (i : Nat) (entry : MethodRef)
    (b : Body) (receiver : Option Instance) : Prop where
  listed : entrypoints[i]? = some entry
  body : p.provider.request entry = .ok (some b)
  receiver : EntryReceiver p.hierarchy entry b receiver

/-- The method that a call without dispatch runs: the one that its declared target means, or
    else the declared target. -/
def resolved (p : Plan) (declared : MethodRef) : MethodRef :=
  match p.hierarchy.resolve? declared with
  | some d => d.method
  | none => declared

/-- What follows from the entry points. -/
inductive Derivable (p : Plan) (entrypoints : List MethodRef) : Fact → Prop where
  | root : Derivable p entrypoints (.node CallGraph.rootNode)
  /-- The root calls the entry points. -/
  | entry {i : Nat} {entry : MethodRef} {b : Body} {receiver : Option Instance}
      (hentry : IsEntryPoint p entrypoints i entry b receiver) :
      Derivable p entrypoints (.node (entryNode p (entrySite (entry, i) b) receiver))
  | entryEdge {i : Nat} {entry : MethodRef} {b : Body} {receiver : Option Instance}
      (hentry : IsEntryPoint p entrypoints i entry b receiver) :
      Derivable p entrypoints (.edge CallGraph.rootNode (entrySite (entry, i) b)
        (entryNode p (entrySite (entry, i) b) receiver))
  /-- An instance method has its receiver in the first parameter. -/
  | entryReceiver {i : Nat} {entry : MethodRef} {b : Body} {r : Instance} {v : ValueNumber}
      (hentry : IsEntryPoint p entrypoints i entry b (some r)) (hinst : b.isStatic = false)
      (hv : b.params[0]? = some v) :
      Derivable p entrypoints (.holds (entryNode p (entrySite (entry, i) b) (some r)) v r)
  /-- Every other parameter holds objects from outside that its declared type admits. -/
  | entryArgument {i : Nat} {entry : MethodRef} {b : Body} {receiver : Option Instance} {j : Nat}
      {v : ValueNumber} {t : TypeName} {o : Instance}
      (hentry : IsEntryPoint p entrypoints i entry b receiver)
      (hother : ¬ (j = 0 ∧ b.isStatic = false)) (hv : b.params[j]? = some v)
      (ht : (if b.isStatic then entry.parameterTypes
        else entry.declaringClass.name :: entry.parameterTypes)[j]? = some t)
      (ho : FromOutside p.hierarchy t o) :
      Derivable p entrypoints (.holds (entryNode p (entrySite (entry, i) b) receiver) v o)
  /-- A merge holds what its uses hold. -/
  | phi {x : Node} {b : Body} {phi : Phi} {u : ValueNumber} {o : Instance}
      (hnode : Derivable p entrypoints (.node x))
      (hbody : p.provider.request x.method = .ok (some b)) (hphi : phi ∈ b.phis)
      (hu : u ∈ phi.uses) (ho : Derivable p entrypoints (.holds x u o)) :
      Derivable p entrypoints (.holds x phi.result o)
  /-- An allocation holds the object that it allocates in this calling context. -/
  | allocation {x : Node} {b : Body} {k : Nat} {v : ValueNumber} {site : NewSite} {line : UInt32}
      (hnode : Derivable p entrypoints (.node x))
      (hbody : p.provider.request x.method = .ok (some b))
      (hnew : Instruction.new k v site line ∈ b.instructions) :
      Derivable p entrypoints
        (.holds x v (Instance.allocated x.method site x.context.callString))
  /-- A dispatching call runs a method for each of its receivers. -/
  | dispatch {x : Node} {b : Body} {k : Nat} {result : Option ValueNumber}
      {args : List ValueNumber} {site : CallSite} {line : UInt32} {v : ValueNumber} {r : Instance}
      {m : MethodRef} (hnode : Derivable p entrypoints (.node x))
      (hbody : p.provider.request x.method = .ok (some b))
      (hcall : Instruction.invoke k result args site line ∈ b.instructions)
      (hkind : site.kind.isDispatch = true) (hv : args.head? = some v)
      (hr : Derivable p entrypoints (.holds x v r))
      (hm : p.hierarchy.dispatch? r.type.name site.declaredTarget = some m) :
      Derivable p entrypoints (.target x args site m (some r))
  /-- Any other call may run its method without a receiver. -/
  | direct {x : Node} {b : Body} {k : Nat} {result : Option ValueNumber}
      {args : List ValueNumber} {site : CallSite} {line : UInt32}
      (hnode : Derivable p entrypoints (.node x))
      (hbody : p.provider.request x.method = .ok (some b))
      (hcall : Instruction.invoke k result args site line ∈ b.instructions)
      (hkind : site.kind = .static ∨ site.kind = .special) :
      Derivable p entrypoints (.target x args site (resolved p site.declaredTarget) none)
  /-- A special call may run its method on each of its receivers. -/
  | special {x : Node} {b : Body} {k : Nat} {result : Option ValueNumber}
      {args : List ValueNumber} {site : CallSite} {line : UInt32} {v : ValueNumber} {r : Instance}
      (hnode : Derivable p entrypoints (.node x))
      (hbody : p.provider.request x.method = .ok (some b))
      (hcall : Instruction.invoke k result args site line ∈ b.instructions)
      (hkind : site.kind = .special) (hv : args.head? = some v)
      (hr : Derivable p entrypoints (.holds x v r)) :
      Derivable p entrypoints (.target x args site (resolved p site.declaredTarget) (some r))
  | called {x : Node} {args : List ValueNumber} {site : CallSite} {m : MethodRef}
      {receiver : Option Instance}
      (htarget : Derivable p entrypoints (.target x args site m receiver)) :
      Derivable p entrypoints (.node (calledNode p x site (m, receiver)))
  | edge {x : Node} {args : List ValueNumber} {site : CallSite} {m : MethodRef}
      {receiver : Option Instance}
      (htarget : Derivable p entrypoints (.target x args site m receiver)) :
      Derivable p entrypoints (.edge x site (calledNode p x site (m, receiver)))
  /-- A call passes the receiver to the first parameter of an instance method. -/
  | receiver {x : Node} {args : List ValueNumber} {site : CallSite} {m : MethodRef}
      {r : Instance} {c : Body} {v : ValueNumber}
      (htarget : Derivable p entrypoints (.target x args site m (some r)))
      (hbody : p.provider.request m = .ok (some c)) (hinst : c.isStatic = false)
      (hv : c.params[0]? = some v) :
      Derivable p entrypoints (.holds (calledNode p x site (m, some r)) v r)
  /-- Every other parameter gets what the argument at its position holds. -/
  | argument {x : Node} {args : List ValueNumber} {site : CallSite} {m : MethodRef}
      {receiver : Option Instance} {c : Body} {j : Nat} {u v : ValueNumber} {o : Instance}
      (htarget : Derivable p entrypoints (.target x args site m receiver))
      (hbody : p.provider.request m = .ok (some c))
      (hother : ¬ (j = 0 ∧ c.isStatic = false ∧ receiver.isSome)) (hv : c.params[j]? = some v)
      (hu : args[j]? = some u) (ho : Derivable p entrypoints (.holds x u o)) :
      Derivable p entrypoints (.holds (calledNode p x site (m, receiver)) v o)
  /-- The result of a call holds what the called node returns. -/
  | returned {x : Node} {b : Body} {k : Nat} {d : ValueNumber} {args : List ValueNumber}
      {site : CallSite} {line : UInt32} {m : MethodRef} {receiver : Option Instance} {c : Body}
      {w : ValueNumber} {o : Instance}
      (htarget : Derivable p entrypoints (.target x args site m receiver))
      (hcaller : p.provider.request x.method = .ok (some b))
      (hcall : Instruction.invoke k (some d) args site line ∈ b.instructions)
      (hbody : p.provider.request m = .ok (some c)) (hw : w ∈ c.returnValues)
      (ho : Derivable p entrypoints (.holds (calledNode p x site (m, receiver)) w o)) :
      Derivable p entrypoints (.holds x d o)

variable {p : Plan} {entrypoints : List MethodRef}

/-! ### Entry points and calls -/

theorem mem_seeds {h : Hierarchy} {t : TypeName} {o : Instance} :
    o ∈ seeds h t ↔ FromOutside h t o := by
  rw [seeds, FromOutside]
  by_cases ht : t.isClass = true
  · rw [if_pos ht, List.mem_map]
    constructor
    · rintro ⟨c, hc, rfl⟩
      exact ⟨ht, c, hc, rfl⟩
    · rintro ⟨-, c, hc, rfl⟩
      exact ⟨c, hc, rfl⟩
  · rw [if_neg ht]
    constructor
    · intro ho
      cases ho
    · intro ho
      exact absurd ho.1 ht

theorem mem_entryReceivers {h : Hierarchy} {entry : MethodRef} {b : Body}
    {receiver : Option Instance} :
    receiver ∈ entryReceivers h entry b.isStatic ↔ EntryReceiver h entry b receiver := by
  constructor
  · intro hr
    rw [entryReceivers] at hr
    by_cases hstatic : b.isStatic = true
    · rw [if_pos hstatic, List.mem_singleton] at hr
      subst hr
      exact .nothing (Or.inl hstatic)
    · rw [if_neg hstatic] at hr
      rw [Bool.not_eq_true] at hstatic
      rcases hseeds : seeds h entry.declaringClass.name with _ | ⟨i, is⟩
      · rw [hseeds, List.mem_singleton] at hr
        subst hr
        refine .nothing (Or.inr ?_)
        intro o ho
        have hmem := mem_seeds.mpr ho
        rw [hseeds] at hmem
        cases hmem
      · rw [hseeds, List.mem_map] at hr
        obtain ⟨o, ho, rfl⟩ := hr
        rw [← hseeds] at ho
        exact .object hstatic (mem_seeds.mp ho)
  · intro hr
    cases hr with
    | object hinst ho =>
        rw [hinst]
        exact mem_entryReceivers_some (mem_seeds.mpr ho)
    | nothing hnone =>
        refine mem_entryReceivers_none (hnone.imp_right ?_)
        intro hempty
        rw [List.eq_nil_iff_forall_not_mem]
        exact fun o ho => hempty o (mem_seeds.mp ho)

/-- What an entry point's parameter is filled with can be derived. -/
theorem IsEntryPoint.derivable_of_mem {i : Nat} {entry : MethodRef} {b : Body}
    {receiver : Option Instance} (h : IsEntryPoint p entrypoints i entry b receiver) {j : Nat}
    {v : ValueNumber} (hv : b.params[j]? = some v) {o : Instance}
    (ho : o ∈ entryArgument p.hierarchy entry receiver b.isStatic j) :
    Derivable p entrypoints (.holds (entryNode p (entrySite (entry, i) b) receiver) v o) := by
  rw [entryArgument] at ho
  by_cases hself : j = 0 ∧ b.isStatic = false
  · -- The first parameter of an instance method is filled with the receiver alone.
    rw [if_pos hself, Option.mem_toList] at ho
    obtain ⟨rfl, hinst⟩ := hself
    cases ho
    exact .entryReceiver h hinst hv
  · rw [if_neg hself] at ho
    rcases ht : (if b.isStatic then entry.parameterTypes
      else entry.declaringClass.name :: entry.parameterTypes)[j]? with _ | t
    · simp [ht] at ho
    · simp only [ht] at ho
      exact .entryArgument h hself hv ht (mem_seeds.mp ho)

/-- The objects that a call is made on. -/
def receivers (pts : PointsTo) (n : Nat) (args : List ValueNumber) (site : CallSite) :
    List Instance :=
  if site.kind.isStatic then []
  else match args.head? with
    | none => []
    | some v => (pts.get n v).toList

theorem targets_eq (p : Plan) (pts : PointsTo) (n : Nat) (args : List ValueNumber)
    (site : CallSite) :
    targets p pts n args site =
      if site.kind.isDispatch then
        (receivers pts n args site).filterMap fun r =>
          (p.hierarchy.dispatch? r.type.name site.declaredTarget).map fun m => (m, some r)
      else if (receivers pts n args site).isEmpty then [(resolved p site.declaredTarget, none)]
      else (receivers pts n args site).map fun r => (resolved p site.declaredTarget, some r) := rfl

theorem mem_receivers {pts : PointsTo} {n : Nat} {args : List ValueNumber} {site : CallSite}
    {r : Instance} (hr : r ∈ receivers pts n args site) :
    site.kind.isStatic = false ∧ ∃ v, args.head? = some v ∧ r ∈ pts.get n v := by
  rw [receivers] at hr
  by_cases hstatic : site.kind.isStatic = true
  · rw [if_pos hstatic] at hr
    cases hr
  · rw [if_neg hstatic] at hr
    rcases hargs : args.head? with _ | v
    · simp [hargs] at hr
    · simp only [hargs] at hr
      exact ⟨Bool.eq_false_iff.mpr hstatic, v, rfl, hr⟩

/-- What a call may run: a dispatching one the method of each receiver, any other one its method
    without a receiver, and a special one also on each receiver. -/
theorem mem_targets_cases {pts : PointsTo} {n : Nat} {args : List ValueNumber} {site : CallSite}
    {t : MethodRef × Option Instance} (ht : t ∈ targets p pts n args site) :
    (site.kind.isDispatch = true ∧ ∃ v r, args.head? = some v ∧ r ∈ pts.get n v ∧
      p.hierarchy.dispatch? r.type.name site.declaredTarget = some t.1 ∧ t.2 = some r) ∨
    ((site.kind = .static ∨ site.kind = .special) ∧
      t = (resolved p site.declaredTarget, none)) ∨
    (site.kind = .special ∧ ∃ v r, args.head? = some v ∧ r ∈ pts.get n v ∧
      t = (resolved p site.declaredTarget, some r)) := by
  rw [targets_eq] at ht
  by_cases hdispatch : site.kind.isDispatch = true
  · rw [if_pos hdispatch, List.mem_filterMap] at ht
    obtain ⟨r, hr, ht⟩ := ht
    obtain ⟨m, hm, rfl⟩ := Option.map_eq_some_iff.mp ht
    obtain ⟨-, v, hv, hmem⟩ := mem_receivers hr
    exact Or.inl ⟨hdispatch, v, r, hv, hmem, hm, rfl⟩
  · rw [if_neg hdispatch] at ht
    have hkind : site.kind = .static ∨ site.kind = .special := by
      cases hk : site.kind <;> simp_all [Invocation.isDispatch]
    by_cases hempty : (receivers pts n args site).isEmpty = true
    · rw [if_pos hempty, List.mem_singleton] at ht
      exact Or.inr (Or.inl ⟨hkind, ht⟩)
    · rw [if_neg hempty, List.mem_map] at ht
      obtain ⟨r, hr, rfl⟩ := ht
      obtain ⟨hstatic, v, hv, hmem⟩ := mem_receivers hr
      -- A static call has no receivers, so the call is a special one.
      have hspecial : site.kind = .special := by
        rcases hkind with hk | hk
        · rw [hk] at hstatic
          cases hstatic
        · exact hk
      exact Or.inr (Or.inr ⟨hspecial, v, r, hv, hmem, rfl⟩)

/-- Whatever a dispatching call runs is the method of one of its receivers, run on it. -/
theorem exists_receiver_of_mem_targets {pts : PointsTo} {n : Nat} {args : List ValueNumber}
    {site : CallSite} {t : MethodRef × Option Instance} (hkind : site.kind.isDispatch = true)
    (ht : t ∈ targets p pts n args site) :
    ∃ v r, args.head? = some v ∧ r ∈ pts.get n v ∧
      p.hierarchy.dispatch? r.type.name site.declaredTarget = some t.1 ∧ t.2 = some r := by
  have hspecial : site.kind ≠ .special := by
    intro hk
    rw [hk] at hkind
    cases hkind
  have hstatic : site.kind ≠ .static := by
    intro hk
    rw [hk] at hkind
    cases hkind
  rcases mem_targets_cases ht with ⟨-, hreceiver⟩ | ⟨hother, -⟩ | ⟨hother, -⟩
  · exact hreceiver
  · exact absurd hother (not_or.mpr ⟨hstatic, hspecial⟩)
  · exact absurd hother hspecial

/-- Whatever a call may run with derived points-to sets can be derived. -/
theorem derivable_of_mem_targets {pts : PointsTo} {n : Nat} {x : Node} {b : Body} {k : Nat}
    {result : Option ValueNumber} {args : List ValueNumber} {site : CallSite} {line : UInt32}
    {t : MethodRef × Option Instance} (hnode : Derivable p entrypoints (.node x))
    (hbody : p.provider.request x.method = .ok (some b))
    (hcall : Instruction.invoke k result args site line ∈ b.instructions)
    (hpts : ∀ v o, o ∈ pts.get n v → Derivable p entrypoints (.holds x v o))
    (ht : t ∈ targets p pts n args site) :
    Derivable p entrypoints (.target x args site t.1 t.2) := by
  rcases mem_targets_cases ht with
    ⟨hkind, v, r, hv, hr, hm, hreceiver⟩ | ⟨hkind, rfl⟩ | ⟨hkind, v, r, hv, hr, rfl⟩
  · rw [hreceiver]
    exact .dispatch hnode hbody hcall hkind hv (hpts v r hr) hm
  · exact .direct hnode hbody hcall hkind
  · exact .special hnode hbody hcall hkind hv (hpts v r hr)

/-- What a call passes to a parameter: the receiver to the first one of an instance method, and
    else what the argument at its position holds. -/
theorem mem_passed_cases {pts : PointsTo} {n : Nat} {args : List ValueNumber}
    {receiver : Option Instance} {isStatic : Bool} {j : Nat} {o : Instance}
    (ho : o ∈ passed pts n args receiver isStatic j) :
    (j = 0 ∧ isStatic = false ∧ receiver = some o) ∨
    (¬ (j = 0 ∧ isStatic = false ∧ receiver.isSome) ∧
      ∃ u, args[j]? = some u ∧ o ∈ pts.get n u) := by
  by_cases hself : j = 0 ∧ isStatic = false ∧ receiver.isSome = true
  · obtain ⟨rfl, rfl, hsome⟩ := hself
    obtain ⟨r, rfl⟩ := Option.isSome_iff_exists.mp hsome
    have ho' : o ∈ [r] := ho
    rw [List.mem_singleton] at ho'
    exact Or.inl ⟨rfl, rfl, by rw [ho']⟩
  · refine Or.inr ⟨hself, ?_⟩
    have hother : ∀ r, receiver = some r → ¬ (j = 0 ∧ isStatic = false) := by
      rintro r rfl hj
      exact hself ⟨hj.1, hj.2, rfl⟩
    rcases harg : args[j]? with _ | u
    · -- There is no argument that could be passed.
      rcases receiver with _ | r
      · simp [passed, harg] at ho
      · simp [passed, harg, hother r rfl] at ho
    · refine ⟨u, rfl, ?_⟩
      rcases receiver with _ | r
      · simp only [passed, harg] at ho
        exact ho
      · simp only [passed, harg, if_neg (hother r rfl)] at ho
        exact ho

/-- What a call passes with derived points-to sets can be derived. -/
theorem derivable_of_mem_passed {pts : PointsTo} {n : Nat} {x : Node} {args : List ValueNumber}
    {site : CallSite} {t : MethodRef × Option Instance} {c : Body} {j : Nat} {v : ValueNumber}
    {o : Instance} (htarget : Derivable p entrypoints (.target x args site t.1 t.2))
    (hbody : p.provider.request t.1 = .ok (some c))
    (hpts : ∀ v o, o ∈ pts.get n v → Derivable p entrypoints (.holds x v o))
    (hv : c.params[j]? = some v) (ho : o ∈ passed pts n args t.2 c.isStatic j) :
    Derivable p entrypoints (.holds (calledNode p x site t) v o) := by
  obtain ⟨m, receiver⟩ := t
  rcases mem_passed_cases ho with ⟨rfl, hinst, hreceiver⟩ | ⟨hother, u, hu, hmem⟩
  · have hreceiver' : receiver = some o := hreceiver
    subst hreceiver'
    exact .receiver htarget hbody hinst hv
  · exact .argument htarget hbody hother hv hu (hpts u o hmem)

end Construction
end StreamVerdict
