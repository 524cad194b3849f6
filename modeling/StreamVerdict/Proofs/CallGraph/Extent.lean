/-
  How much can be in a call graph.

  Everything that follows from the entry points is made of finitely many parts: the calls, the
  allocations and the values of finitely many bodies, the classes and methods of the hierarchy,
  and the entry points themselves.  Call strings are cut off at the depth, and the call string
  of an object is one of the method that allocated it, so that the parts can be put together in
  finitely many ways only.  The lists of this module hold all of them, and their lengths are
  bounded by powers of the magnitude of the input.
-/
import Mathlib.Algebra.Group.Nat.Defs
import Mathlib.Data.List.ProdSigma
import StreamVerdict.Proofs.Body.Draft
import StreamVerdict.Proofs.CallGraph.Grounded
import StreamVerdict.Proofs.Hierarchy.Dispatch

namespace StreamVerdict

/-! ### Short lists -/

section ShortLists

variable {α : Type}

/-- The lists of at most `k` members of `as`. -/
def shortLists (as : List α) : Nat → List (List α)
  | 0 => [[]]
  | k + 1 => [] :: (as ×ˢ shortLists as k).map fun c => c.1 :: c.2

theorem mem_shortLists {as l : List α} {k : Nat} :
    l ∈ shortLists as k ↔ l.length ≤ k ∧ ∀ a ∈ l, a ∈ as := by
  induction k generalizing l with
  | zero =>
      rw [shortLists, List.mem_singleton]
      constructor
      · rintro rfl
        exact ⟨Nat.le_refl 0, fun a ha => absurd ha List.not_mem_nil⟩
      · rintro ⟨hlen, -⟩
        exact List.length_eq_zero_iff.mp (Nat.le_zero.mp hlen)
  | succ k ih =>
      rw [shortLists, List.mem_cons, List.mem_map]
      constructor
      · rintro (rfl | ⟨⟨a, rest⟩, hc, rfl⟩)
        · exact ⟨Nat.zero_le _, fun a ha => absurd ha List.not_mem_nil⟩
        · obtain ⟨ha, hrest⟩ := List.mem_product.mp hc
          obtain ⟨hlen, hall⟩ := ih.mp hrest
          refine ⟨Nat.succ_le_succ hlen, ?_⟩
          intro a' ha'
          rcases List.mem_cons.mp ha' with rfl | ha'
          · exact ha
          · exact hall a' ha'
      · rintro ⟨hlen, hall⟩
        rcases l with _ | ⟨a, rest⟩
        · exact Or.inl rfl
        · have hrest : rest ∈ shortLists as k :=
            ih.mpr ⟨Nat.le_of_succ_le_succ hlen, fun a' ha' => hall a' (List.mem_cons_of_mem a ha')⟩
          exact Or.inr ⟨(a, rest), List.mem_product.mpr ⟨hall a List.mem_cons_self, hrest⟩, rfl⟩

theorem length_shortLists_le (as : List α) (k : Nat) :
    (shortLists as k).length ≤ (as.length + 1) ^ k := by
  induction k with
  | zero => exact Nat.le_refl 1
  | succ k ih =>
      have hone : 1 ≤ (as.length + 1) ^ k := Nat.one_le_pow _ _ (Nat.succ_pos _)
      have hmul := Nat.mul_le_mul_left as.length ih
      have hpow : (as.length + 1) ^ (k + 1) =
          as.length * (as.length + 1) ^ k + (as.length + 1) ^ k := by
        rw [Nat.pow_succ, Nat.mul_comm, Nat.add_mul, Nat.one_mul]
      rw [shortLists, List.length_cons, List.length_map, List.length_product, hpow]
      omega

end ShortLists

namespace Construction

/-- A plan whose provider has finitely many bodies to give. -/
structure FinitePlan extends Plan where
  bodies : List Body
  /-- Every body that the provider gives is among them. -/
  listed : ∀ m b, provider.request m = .ok (some b) → b ∈ bodies

/-- A store has finitely many bodies. -/
def FinitePlan.ofStore (h : Hierarchy) (s : BodyStore) (depth : Nat) : FinitePlan :=
  ⟨⟨h, s.provider, depth⟩, s.bodies, fun _ _ => BodyStore.mem_bodies_of_request⟩

/-! ### Parts -/

section Parts

variable (p : FinitePlan) (entrypoints : List MethodRef)

/-- The call from the root to an entry point that has a body. -/
def FinitePlan.entryFrame? (entry : MethodRef × Nat) : Option Frame :=
  match p.provider.request entry.1 with
  | .ok (some b) => some ⟨entrySite entry b, CallGraph.rootMethod⟩
  | _ => none

/-- The calls that can be in a call string. -/
def FinitePlan.frames : List Frame :=
  entrypoints.zipIdx.filterMap p.entryFrame? ++
    p.bodies.flatMap fun b => b.callSites.map fun site => ⟨site, b.method⟩

/-- The methods that can be run. -/
def FinitePlan.methods : List MethodRef :=
  CallGraph.rootMethod :: (entrypoints ++
    (p.bodies.flatMap (fun b => b.callSites.map CallSite.declaredTarget) ++
      p.hierarchy.classes.flatMap fun c => c.methods.map DeclaredMethod.method))

/-- The places that objects can come from. -/
def FinitePlan.allocations : List Allocation :=
  p.bodies.flatMap (fun b => b.newSites.map (Allocation.new b.method)) ++
    p.hierarchy.classes.flatMap fun c => [Allocation.synthetic c.typeRef]

/-- The values that can hold objects. -/
def FinitePlan.values : List ValueNumber :=
  p.bodies.flatMap fun b =>
    b.params ++ (b.phis.map Phi.result ++ b.instructions.filterMap Instruction.result?)

def FinitePlan.callStrings : List (List Frame) := shortLists (p.frames entrypoints) p.depth

def FinitePlan.instances : List Instance :=
  (p.allocations ×ˢ p.callStrings entrypoints).map fun c => ⟨c.1, ⟨c.2⟩⟩

def FinitePlan.nodes : List Node :=
  (p.methods entrypoints ×ˢ (p.callStrings entrypoints ×ˢ
    (none :: (p.instances entrypoints).map some))).map fun c => ⟨c.1, ⟨c.2.1⟩, c.2.2⟩

end Parts

variable {p : FinitePlan} {entrypoints : List MethodRef}

theorem mem_instances {o : Instance} :
    o ∈ p.instances entrypoints ↔
      o.allocation ∈ p.allocations ∧ o.heapContext.frames ∈ p.callStrings entrypoints := by
  rw [FinitePlan.instances, List.mem_map]
  constructor
  · rintro ⟨⟨a, fs⟩, hc, rfl⟩
    exact List.mem_product.mp hc
  · intro h
    exact ⟨(o.allocation, o.heapContext.frames), List.mem_product.mpr h, rfl⟩

theorem mem_nodes {x : Node} :
    x ∈ p.nodes entrypoints ↔ x.method ∈ p.methods entrypoints ∧
      x.context.callString.frames ∈ p.callStrings entrypoints ∧
      ∀ r, x.context.receiver = some r → r ∈ p.instances entrypoints := by
  have hreceiver : ∀ receiver : Option Instance,
      receiver ∈ none :: (p.instances entrypoints).map some ↔
        ∀ r, receiver = some r → r ∈ p.instances entrypoints := by
    rintro (_ | r)
    · simp
    · simp
  rw [FinitePlan.nodes, List.mem_map]
  constructor
  · rintro ⟨⟨m, fs, receiver⟩, hc, rfl⟩
    rw [List.mem_product, List.mem_product, hreceiver] at hc
    exact hc
  · intro h
    refine ⟨(x.method, x.context.callString.frames, x.context.receiver), ?_, rfl⟩
    rw [List.mem_product, List.mem_product, hreceiver]
    exact h

theorem mem_callStrings_push {cs : CallString} {f : Frame}
    (hcs : cs.frames ∈ p.callStrings entrypoints) (hf : f ∈ p.frames entrypoints) :
    (cs.push f p.depth).frames ∈ p.callStrings entrypoints := by
  obtain ⟨-, hall⟩ := mem_shortLists.mp hcs
  refine mem_shortLists.mpr ⟨List.length_take_le _ _, ?_⟩
  intro f' hf'
  rcases List.mem_cons.mp (List.mem_of_mem_take hf') with rfl | hold
  · exact hf
  · exact hall f' hold

theorem mem_callStrings_empty : CallString.empty.frames ∈ p.callStrings entrypoints :=
  mem_shortLists.mpr ⟨Nat.zero_le _, fun _ ha => absurd ha List.not_mem_nil⟩

theorem frame_mem_of_call {m : MethodRef} {b : Body} {k : Nat} {result : Option ValueNumber}
    {args : List ValueNumber} {site : CallSite} {line : UInt32}
    (hb : p.provider.request m = .ok (some b))
    (hcall : Instruction.invoke k result args site line ∈ b.instructions) :
    ⟨site, m⟩ ∈ p.frames entrypoints := by
  have hmem := p.listed m b hb
  obtain rfl := p.provider.own m b hb
  have hsite : site ∈ b.callSites := List.mem_filterMap.mpr ⟨_, hcall, rfl⟩
  exact List.mem_append_right _ (List.mem_flatMap.mpr ⟨b, hmem, List.mem_map_of_mem hsite⟩)

theorem value_mem_of_body {m : MethodRef} {b : Body} {v : ValueNumber}
    (hb : p.provider.request m = .ok (some b))
    (hv : v ∈ b.params ∨ b.Defines v) : v ∈ p.values := by
  refine List.mem_flatMap.mpr ⟨b, p.listed m b hb, ?_⟩
  rw [List.mem_append, List.mem_append, List.mem_map, List.mem_filterMap]
  exact hv

/-! ### Whatever follows is made of these parts -/

theorem FromOutside.mem_instances {t : TypeName} {o : Instance}
    (h : FromOutside p.hierarchy t o) : o ∈ p.instances entrypoints := by
  obtain ⟨-, c, hc, rfl⟩ := h
  have hclass : c ∈ p.hierarchy.classes :=
    Hierarchy.mem_classes_of_mem_concreteSubtypes hc
  refine Construction.mem_instances.mpr ⟨?_, mem_callStrings_empty⟩
  exact List.mem_append_right _
    (List.mem_flatMap.mpr ⟨c, hclass, List.mem_singleton.mpr rfl⟩)

theorem IsEntryPoint.receiver_mem {i : Nat} {entry : MethodRef} {b : Body}
    {receiver : Option Instance} (h : IsEntryPoint p.toPlan entrypoints i entry b receiver)
    {r : Instance} (hr : receiver = some r) : r ∈ p.instances entrypoints := by
  subst hr
  cases h.receiver with
  | object _ ho => exact ho.mem_instances

theorem IsEntryPoint.node_mem {i : Nat} {entry : MethodRef} {b : Body}
    {receiver : Option Instance} (h : IsEntryPoint p.toPlan entrypoints i entry b receiver) :
    entryNode p.toPlan (entrySite (entry, i) b) receiver ∈ p.nodes entrypoints := by
  refine mem_nodes.mpr ⟨?_, ?_, fun r hr => h.receiver_mem hr⟩
  · exact List.mem_cons_of_mem _ (List.mem_append_left _ (List.mem_of_getElem? h.listed))
  · refine mem_callStrings_push mem_callStrings_empty (List.mem_append_left _ ?_)
    refine List.mem_filterMap.mpr ⟨(entry, i), List.mem_zipIdx_iff_getElem?.mpr h.listed, ?_⟩
    simp only [FinitePlan.entryFrame?, h.body]

theorem method_mem_of_declares {d : DeclaredMethod} (hd : p.hierarchy.Declares d) :
    d.method ∈ p.methods entrypoints := by
  obtain ⟨c, hc, hmem⟩ := hd
  refine List.mem_cons_of_mem _ (List.mem_append_right _ (List.mem_append_right _ ?_))
  exact List.mem_flatMap.mpr ⟨c, hc, List.mem_map_of_mem hmem⟩

theorem resolved_mem {m : MethodRef} {b : Body} {k : Nat} {result : Option ValueNumber}
    {args : List ValueNumber} {site : CallSite} {line : UInt32}
    (hb : p.provider.request m = .ok (some b))
    (hcall : Instruction.invoke k result args site line ∈ b.instructions) :
    resolved p.toPlan site.declaredTarget ∈ p.methods entrypoints := by
  rw [resolved]
  rcases hd : p.toPlan.hierarchy.resolve? site.declaredTarget with _ | d
  · have hsite : site ∈ b.callSites := List.mem_filterMap.mpr ⟨_, hcall, rfl⟩
    refine List.mem_cons_of_mem _ (List.mem_append_right _ (List.mem_append_left _ ?_))
    exact List.mem_flatMap.mpr ⟨b, p.listed m b hb, List.mem_map_of_mem hsite⟩
  · exact method_mem_of_declares (Hierarchy.declares_of_resolve? hd)

theorem calledNode_mem {x : Node} {b : Body} {k : Nat} {result : Option ValueNumber}
    {args : List ValueNumber} {site : CallSite} {line : UInt32} {m : MethodRef}
    {receiver : Option Instance} (hx : x ∈ p.nodes entrypoints)
    (hb : p.provider.request x.method = .ok (some b))
    (hcall : Instruction.invoke k result args site line ∈ b.instructions)
    (hm : m ∈ p.methods entrypoints)
    (hreceiver : ∀ r, receiver = some r → r ∈ p.instances entrypoints) :
    calledNode p.toPlan x site (m, receiver) ∈ p.nodes entrypoints :=
  mem_nodes.mpr ⟨hm, mem_callStrings_push (mem_nodes.mp hx).2.1 (frame_mem_of_call hb hcall),
    hreceiver⟩

/-- Nodes, values and objects are among those that the parts can be put together to. -/
def Fact.Confined (p : FinitePlan) (entrypoints : List MethodRef) : Fact → Prop
  | .node x => x ∈ p.nodes entrypoints
  | .target x _ site m receiver => calledNode p.toPlan x site (m, receiver) ∈ p.nodes entrypoints
  | .edge _ _ y => y ∈ p.nodes entrypoints
  | .holds _ v o => v ∈ p.values ∧ o ∈ p.instances entrypoints

/-- Whatever follows from the entry points is confined. -/
theorem Derivable.confined {f : Fact} (h : Derivable p.toPlan entrypoints f) :
    f.Confined p entrypoints := by
  induction h with
  | root =>
      refine mem_nodes.mpr ⟨List.mem_cons_self, mem_callStrings_empty, ?_⟩
      intro r hr
      cases hr
  | entry hentry => exact hentry.node_mem
  | entryEdge hentry => exact hentry.node_mem
  | entryReceiver hentry _ hv =>
      exact ⟨value_mem_of_body hentry.body (Or.inl (List.mem_of_getElem? hv)),
        hentry.receiver_mem rfl⟩
  | entryArgument hentry _ hv _ ho =>
      exact ⟨value_mem_of_body hentry.body (Or.inl (List.mem_of_getElem? hv)), ho.mem_instances⟩
  | @phi _ _ phi _ _ _ hbody hphi _ _ _ ih =>
      exact ⟨value_mem_of_body hbody (Or.inr (Or.inl ⟨phi, hphi, rfl⟩)), ih.2⟩
  | @allocation x b k v site line _ hbody hnew ih =>
      refine ⟨value_mem_of_body hbody (Or.inr (Or.inr ⟨_, hnew, rfl⟩)), ?_⟩
      have hsite : site ∈ b.newSites := List.mem_filterMap.mpr ⟨_, hnew, rfl⟩
      refine mem_instances.mpr ⟨List.mem_append_left _ ?_, (mem_nodes.mp ih).2.1⟩
      rw [Instance.allocated, ← p.provider.own x.method b hbody]
      exact List.mem_flatMap.mpr ⟨b, p.listed x.method b hbody, List.mem_map_of_mem hsite⟩
  | dispatch _ hbody hcall _ _ _ hm ihnode ihr =>
      obtain ⟨d, hd, rfl⟩ := Hierarchy.declares_of_dispatch? hm
      refine calledNode_mem ihnode hbody hcall (method_mem_of_declares hd) ?_
      rintro r ⟨⟩
      exact ihr.2
  | direct _ hbody hcall _ ih =>
      refine calledNode_mem ih hbody hcall (resolved_mem hbody hcall) ?_
      intro r hr
      cases hr
  | special _ hbody hcall _ _ _ ihnode ihr =>
      refine calledNode_mem ihnode hbody hcall (resolved_mem hbody hcall) ?_
      rintro r ⟨⟩
      exact ihr.2
  | called _ ih => exact ih
  | edge _ ih => exact ih
  | receiver _ hbody _ hv ih =>
      exact ⟨value_mem_of_body hbody (Or.inl (List.mem_of_getElem? hv)),
        (mem_nodes.mp ih).2.2 _ rfl⟩
  | argument _ hbody _ hv _ _ _ ih =>
      exact ⟨value_mem_of_body hbody (Or.inl (List.mem_of_getElem? hv)), ih.2⟩
  | returned _ hcaller hcall _ _ _ _ ih =>
      exact ⟨value_mem_of_body hcaller (Or.inr (Or.inr ⟨_, hcall, rfl⟩)), ih.2⟩

/-! ### Sizes -/

/-- What a body adds to the magnitude. -/
def FinitePlan.addBody (n : Nat) (b : Body) : Nat :=
  n + 1 + b.params.length + b.phis.length + b.instructions.length

/-- What a class adds to the magnitude. -/
def FinitePlan.addClass (n : Nat) (c : ClassInfo) : Nat := n + 1 + c.methods.length

/-- How large the input is: all that can occur in a call string, allocate an object, be called
    or hold a value. -/
def FinitePlan.magnitude (p : FinitePlan) (entrypoints : List MethodRef) : Nat :=
  p.hierarchy.classes.foldl addClass (p.bodies.foldl addBody (2 + entrypoints.length))

/-- A fold that adds at least the length of a list for each element adds at least the length of
    all these lists together. -/
theorem add_length_flatMap_le_foldl {α β : Type} {f : Nat → α → Nat} {g : α → List β}
    (h : ∀ n a, n + (g a).length ≤ f n a) (l : List α) (n : Nat) :
    n + (l.flatMap g).length ≤ l.foldl f n := by
  induction l generalizing n with
  | nil => exact Nat.le_refl n
  | cons a l ih =>
      have hfirst := h n a
      have hrest := ih (f n a)
      rw [List.flatMap_cons, List.length_append, List.foldl_cons]
      omega

/-- Lists that take no more from a body or a class than the magnitude counts for it. -/
theorem length_le_magnitude {β γ : Type} (p : FinitePlan) (entrypoints : List MethodRef)
    (g : Body → List β) (k : ClassInfo → List γ)
    (hg : ∀ b, (g b).length ≤ 1 + b.params.length + b.phis.length + b.instructions.length)
    (hk : ∀ c, (k c).length ≤ 1 + c.methods.length) :
    2 + entrypoints.length + (p.bodies.flatMap g).length +
      (p.hierarchy.classes.flatMap k).length ≤ p.magnitude entrypoints := by
  have hbody : ∀ n b, n + (g b).length ≤ FinitePlan.addBody n b := by
    intro n b
    have hb := hg b
    rw [FinitePlan.addBody]
    omega
  have hclass : ∀ n c, n + (k c).length ≤ FinitePlan.addClass n c := by
    intro n c
    have hc := hk c
    rw [FinitePlan.addClass]
    omega
  have hbodies := add_length_flatMap_le_foldl hbody p.bodies (2 + entrypoints.length)
  have hclasses := add_length_flatMap_le_foldl hclass p.hierarchy.classes
    (p.bodies.foldl FinitePlan.addBody (2 + entrypoints.length))
  rw [FinitePlan.magnitude]
  omega

theorem length_callSites_le (b : Body) : b.callSites.length ≤ b.instructions.length :=
  List.length_filterMap_le _ _

theorem length_newSites_le (b : Body) : b.newSites.length ≤ b.instructions.length :=
  List.length_filterMap_le _ _

section Lengths

variable (p : FinitePlan) (entrypoints : List MethodRef)

theorem two_le_magnitude : 2 ≤ p.magnitude entrypoints := by
  have h := length_le_magnitude p entrypoints (fun _ => ([] : List Nat)) (fun _ => ([] : List Nat))
    (fun _ => Nat.zero_le _) (fun _ => Nat.zero_le _)
  omega

theorem length_frames_lt : (p.frames entrypoints).length < p.magnitude entrypoints := by
  have h := length_le_magnitude p entrypoints
    (fun b => b.callSites.map fun site => (⟨site, b.method⟩ : Frame)) (fun _ => ([] : List Nat))
    (fun b => by
      have hle := length_callSites_le b
      rw [List.length_map]
      omega)
    (fun _ => Nat.zero_le _)
  have hentries : (entrypoints.zipIdx.filterMap p.entryFrame?).length ≤ entrypoints.length := by
    have hle := List.length_filterMap_le p.entryFrame? entrypoints.zipIdx
    rwa [List.length_zipIdx] at hle
  rw [FinitePlan.frames, List.length_append]
  omega

theorem length_methods_le : (p.methods entrypoints).length ≤ p.magnitude entrypoints := by
  have h := length_le_magnitude p entrypoints (fun b => b.callSites.map CallSite.declaredTarget)
    (fun c => c.methods.map DeclaredMethod.method)
    (fun b => by
      have hle := length_callSites_le b
      rw [List.length_map]
      omega)
    (fun c => by
      rw [List.length_map]
      omega)
  rw [FinitePlan.methods, List.length_cons, List.length_append, List.length_append]
  omega

theorem length_allocations_lt : p.allocations.length < p.magnitude entrypoints := by
  have h := length_le_magnitude p entrypoints (fun b => b.newSites.map (Allocation.new b.method))
    (fun c => [Allocation.synthetic c.typeRef])
    (fun b => by
      have hle := length_newSites_le b
      rw [List.length_map]
      omega)
    (fun c => by
      rw [List.length_singleton]
      omega)
  rw [FinitePlan.allocations, List.length_append]
  omega

theorem length_values_le : p.values.length ≤ p.magnitude entrypoints := by
  have h := length_le_magnitude p entrypoints
    (fun b => b.params ++ (b.phis.map Phi.result ++ b.instructions.filterMap Instruction.result?))
    (fun _ => ([] : List Nat))
    (fun b => by
      have hle : (b.instructions.filterMap Instruction.result?).length ≤ b.instructions.length :=
        List.length_filterMap_le _ _
      rw [List.length_append, List.length_append, List.length_map]
      omega)
    (fun _ => Nat.zero_le _)
  rw [FinitePlan.values]
  omega

theorem length_callStrings_le :
    (p.callStrings entrypoints).length ≤ p.magnitude entrypoints ^ p.depth :=
  Nat.le_trans (length_shortLists_le _ _)
    (Nat.pow_le_pow_left (length_frames_lt p entrypoints) p.depth)

theorem length_instances_lt :
    (p.instances entrypoints).length < p.magnitude entrypoints ^ (p.depth + 1) := by
  have hstrings := length_callStrings_le p entrypoints
  have hpos : 0 < (p.callStrings entrypoints).length :=
    List.length_pos_of_mem mem_callStrings_empty
  have hmul : (p.allocations.length + 1) * (p.callStrings entrypoints).length ≤
      p.magnitude entrypoints * p.magnitude entrypoints ^ p.depth :=
    Nat.mul_le_mul (length_allocations_lt p entrypoints) hstrings
  rw [Nat.add_mul, Nat.one_mul] at hmul
  rw [FinitePlan.instances, List.length_map, List.length_product, Nat.pow_succ']
  omega

theorem length_nodes_le :
    (p.nodes entrypoints).length ≤ p.magnitude entrypoints ^ (2 * p.depth + 2) := by
  have hreceivers : (none :: (p.instances entrypoints).map some).length ≤
      p.magnitude entrypoints ^ (p.depth + 1) := by
    rw [List.length_cons, List.length_map]
    exact length_instances_lt p entrypoints
  have hpow : p.magnitude entrypoints ^ (2 * p.depth + 2) = p.magnitude entrypoints *
      (p.magnitude entrypoints ^ p.depth * p.magnitude entrypoints ^ (p.depth + 1)) := by
    rw [← Nat.pow_add, ← Nat.pow_succ']
    congr 1
    omega
  rw [FinitePlan.nodes, List.length_map, List.length_product, List.length_product, hpow]
  exact Nat.mul_le_mul (length_methods_le p entrypoints)
    (Nat.mul_le_mul (length_callStrings_le p entrypoints) hreceivers)

end Lengths

end Construction
end StreamVerdict
