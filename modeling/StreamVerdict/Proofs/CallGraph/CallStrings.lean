/-
  Call strings are the paths on which a node is reached.

  A call pushes its site and the calling method onto the call string of the calling node, and a
  node is never reached by a call that would give it another call string, because the call
  string is part of the node.  So along every path from the root, of whatever length and through
  whatever recursion, the call string of the node at its end lists the last calls of the path.
-/
import StreamVerdict.Proofs.CallGraph.Grounded

namespace StreamVerdict

/-! ### Paths -/

namespace CallGraph

/-- Edges that lead from the root to a node, the last one first. -/
inductive Path (g : CallGraph) : List Edge → Nat → Prop where
  | root : Path g [] root
  | call {es : List Edge} {e : Edge} (hpath : Path g es e.caller) (he : e ∈ g.edges) :
      Path g (e :: es) e.callee

/-- The call of an edge with the method of the calling node. -/
def frame? (g : CallGraph) (e : Edge) : Option Frame :=
  (g.node? e.caller).map fun x => ⟨e.site, x.method⟩

end CallGraph

namespace Construction

variable {p : Plan} {entrypoints : List MethodRef} {g : CallGraph} {pts : PointsTo}

/-- Every node is called from one that was there before it, and so it is reached from the
    root. -/
theorem Grounded.exists_path (h : Grounded p entrypoints g pts) {n : Nat} {x : Node}
    (hx : g.node? n = some x) : ∃ es, g.Path es n := by
  induction n using Nat.strongRecOn generalizing x with
  | ind n ih =>
      rcases h.called n x hx with rfl | ⟨m, site, hlt, he⟩
      · exact ⟨[], .root⟩
      · obtain ⟨y, -, hy, -, -⟩ := h.edge _ he
        obtain ⟨es, hpath⟩ := ih m hlt hy
        exact ⟨⟨m, site, n⟩ :: es, .call hpath he⟩

/-! ### Call strings -/

/-- Along an edge the call is pushed onto the call string. -/
theorem Derivable.callString_edge {x y : Node} {site : CallSite}
    (h : Derivable p entrypoints (.edge x site y)) :
    y.context.callString = x.context.callString.push ⟨site, x.method⟩ p.depth := by
  cases h with
  | entryEdge hentry => rfl
  | edge htarget => rfl

/-- Cutting off before an element is put in front makes no difference to what is cut off
    afterwards. -/
theorem take_cons_take {α : Type} (a : α) (l : List α) (k : Nat) :
    (a :: l.take k).take k = (a :: l).take k := by
  cases k with
  | zero => rfl
  | succ k =>
      rw [List.take_succ_cons, List.take_succ_cons, List.take_take, Nat.min_eq_left (Nat.le_succ k)]

/-- The call string of a node lists the last calls of every path that leads to it. -/
theorem Grounded.callString_of_path (h : Grounded p entrypoints g pts)
    (hroot : g.node? CallGraph.root = some CallGraph.rootNode) {es : List Edge} {n : Nat}
    (hpath : g.Path es n) :
    ∃ x, g.node? n = some x ∧
      x.context.callString.frames.map some = (es.take p.depth).map g.frame? := by
  induction hpath with
  | root =>
      refine ⟨CallGraph.rootNode, hroot, ?_⟩
      rw [List.take_nil]
      rfl
  | @call es e _ he ih =>
      obtain ⟨x, hx, hframes⟩ := ih
      obtain ⟨x', y, hx', hy, hderived⟩ := h.edge e he
      rw [hx] at hx'
      cases hx'
      have hframe : g.frame? e = some ⟨e.site, x.method⟩ := by
        rw [CallGraph.frame?, hx]
        rfl
      refine ⟨y, hy, ?_⟩
      rw [hderived.callString_edge]
      calc (x.context.callString.push ⟨e.site, x.method⟩ p.depth).frames.map some
          = ((⟨e.site, x.method⟩ :: x.context.callString.frames).map some).take p.depth := by
            rw [CallString.push, List.map_take]
        _ = (g.frame? e :: (es.map g.frame?).take p.depth).take p.depth := by
            rw [List.map_cons, hframes, hframe, List.map_take]
        _ = ((e :: es).take p.depth).map g.frame? := by
            rw [take_cons_take, List.map_take, List.map_cons]

/-- The call strings of nodes and of the objects that they hold or are run on are no longer than
    the depth. -/
def Fact.Shallow (depth : Nat) : Fact → Prop
  | .node x => x.context.callString.frames.length ≤ depth ∧
      ∀ r, x.context.receiver = some r → r.heapContext.frames.length ≤ depth
  | .target _ _ _ _ receiver => ∀ r, receiver = some r → r.heapContext.frames.length ≤ depth
  | .edge _ _ _ => True
  | .holds _ _ o => o.heapContext.frames.length ≤ depth

theorem length_push_le (cs : CallString) (f : Frame) (depth : Nat) :
    (cs.push f depth).frames.length ≤ depth := List.length_take_le _ _

theorem FromOutside.length_heapContext {h : Hierarchy} {t : TypeName} {o : Instance}
    (ho : FromOutside h t o) (depth : Nat) : o.heapContext.frames.length ≤ depth := by
  obtain ⟨-, c, -, rfl⟩ := ho
  exact Nat.zero_le depth

theorem IsEntryPoint.length_heapContext {i : Nat} {entry : MethodRef} {b : Body}
    {receiver : Option Instance} (h : IsEntryPoint p entrypoints i entry b receiver)
    (r : Instance) (hr : receiver = some r) : r.heapContext.frames.length ≤ p.depth := by
  subst hr
  cases h.receiver with
  | object _ ho => exact ho.length_heapContext p.depth

/-- A call string is cut off wherever a call is pushed onto it, and that of an object is one of
    the node that allocated it. -/
theorem Derivable.shallow {f : Fact} (h : Derivable p entrypoints f) : f.Shallow p.depth := by
  induction h with
  | root => exact ⟨Nat.zero_le _, fun r hr => by cases hr⟩
  | entry hentry => exact ⟨length_push_le _ _ _, hentry.length_heapContext⟩
  | entryEdge hentry => trivial
  | entryReceiver hentry _ _ => exact hentry.length_heapContext _ rfl
  | entryArgument hentry _ _ _ ho => exact ho.length_heapContext p.depth
  | phi _ _ _ _ _ _ ih => exact ih
  | allocation _ _ _ ih => exact ih.1
  | dispatch _ _ _ _ _ _ _ _ ihr =>
      rintro r ⟨⟩
      exact ihr
  | direct _ _ _ _ _ =>
      intro r hr
      cases hr
  | special _ _ _ _ _ _ _ ihr =>
      rintro r ⟨⟩
      exact ihr
  | called _ ih => exact ⟨length_push_le _ _ _, ih⟩
  | edge _ _ => trivial
  | receiver _ _ _ _ ih => exact ih _ rfl
  | argument _ _ _ _ _ _ _ ih => exact ih
  | returned _ _ _ _ _ _ _ ih => exact ih

/-- Every node of a built call graph is reached from the root, and its call string lists the
    last calls of every path that leads to it, with the calling methods, the last one first, and
    as many as the depth allows.  So no call string and no call string of an object is longer
    than the depth. -/
theorem build_callString_eq_path (p : Plan) (entrypoints : List MethodRef) (monitor : Monitor)
    (g : BuiltGraph) (h : (build p entrypoints monitor).result = .ok g) :
    (∀ n x, g.graph.node? n = some x → ∃ es, g.graph.Path es n) ∧
    (∀ es n, g.graph.Path es n → ∃ x, g.graph.node? n = some x ∧
      x.context.callString.frames.map some = (es.take p.depth).map g.graph.frame?) ∧
    (∀ n x, g.graph.node? n = some x → x.context.callString.frames.length ≤ p.depth) ∧
    ∀ n v o, o ∈ g.pointsTo.get n v → o.heapContext.frames.length ≤ p.depth := by
  have hgrounded := grounded_of_build h
  have hroot : g.graph.node? CallGraph.root = some CallGraph.rootNode := by
    obtain ⟨s, hinv, -, rfl⟩ := invariant_of_build h
    exact hinv.root
  refine ⟨?_, ?_, ?_, ?_⟩
  · intro n x hx
    exact hgrounded.exists_path hx
  · intro es n hpath
    exact hgrounded.callString_of_path hroot hpath
  · intro n x hx
    exact (hgrounded.node n x hx).shallow.1
  · intro n v o ho
    obtain ⟨x, -, hderived⟩ := hgrounded.holds n v o ho
    exact hderived.shallow

namespace Copying

/-- The method that calls itself, with call strings of two calls. -/
def deep : Plan := { plan with depth := 2 }

/-- Into the method, three times around and once more. -/
def around : List Edge :=
  [⟨4, again, 4⟩, ⟨3, again, 4⟩, ⟨2, again, 3⟩, ⟨1, again, 2⟩, ⟨0, ⟨0, copy, .virtual⟩, 1⟩]

theorem built_deep : ∃ g, (build deep [copy] .unlimited).result = .ok g ∧
    ∀ e ∈ around, e ∈ g.graph.edges :=
  exists_built_of_any 40 (by decide +kernel)

/-- The call string of the innermost node are the last two of the five calls. -/
theorem build_callString_eq_path_deep :
    ∃ g, (build deep [copy] .unlimited).result = .ok g ∧ g.graph.Path around 4 ∧
      ∃ x, g.graph.node? 4 = some x ∧ x.context.callString.frames.map some =
        [g.graph.frame? ⟨4, again, 4⟩, g.graph.frame? ⟨3, again, 4⟩] := by
  obtain ⟨g, hg, hedges⟩ := built_deep
  have hpath : g.graph.Path around 4 :=
    .call (.call (.call (.call (.call .root (hedges _ (by decide))) (hedges _ (by decide)))
      (hedges _ (by decide))) (hedges _ (by decide))) (hedges _ (by decide))
  obtain ⟨-, hstrings, -⟩ := build_callString_eq_path deep [copy] .unlimited g hg
  exact ⟨g, hg, hpath, hstrings around 4 hpath⟩

end Copying

end Construction
end StreamVerdict
