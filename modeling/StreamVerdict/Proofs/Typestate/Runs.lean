/-
  Runs of a program as far as one object is concerned.

  A run is at an instruction of the topmost activation, with the object in some state.  It
  walks over the instruction, or into a node that the instruction calls; from a return or from
  the end of a body it goes back to where the calling node waits.  However deep the calls of a
  run are nested and however long it is, all states that occur in it are found by the solve.
-/
import StreamVerdict.Proofs.CallGraph.Determinacy
import StreamVerdict.Proofs.Typestate.Solve

namespace StreamVerdict
namespace Typestate

/-! ### Runs -/

/-- A node in the middle of its body. -/
structure Activation where
  node : Nat
  /-- The instructions that are left. -/
  rest : List Instruction

/-- The state of the object, and the activations, topmost first. -/
structure Config where
  state : State
  stack : List Activation

/-- A run begins at an entry point with the object in its initial state. -/
inductive Starts (p : Problem) : Config → Prop where
  | entry {n : Nat} {b : Body} (hn : n ∈ p.graph.graph.entrypoints)
      (hb : p.graph.body? n = some b) :
      Starts p ⟨p.protocol.initial, [⟨n, b.instructions⟩]⟩

inductive RunStep (p : Problem) : Config → Config → Prop where
  /-- Over an instruction, without entering a node that it calls. -/
  | along {q q' : State} {n : Nat} {x : Node} {i : Instruction} {is : List Instruction}
      {stack : List Activation} (hx : p.graph.graph.node? n = some x)
      (hq : afterInstruction p n x i q = q') :
      RunStep p ⟨q, ⟨n, i :: is⟩ :: stack⟩ ⟨q', ⟨n, is⟩ :: stack⟩
  /-- Into a node with a body that the instruction calls, after the call on the object. -/
  | into {q q' : State} {n c iindex : Nat} {x : Node} {b : Body} {result : Option ValueNumber}
      {args : List ValueNumber} {site : CallSite} {line : UInt32} {is : List Instruction}
      {stack : List Activation} (hx : p.graph.graph.node? n = some x)
      (hq : afterInstruction p n x (.invoke iindex result args site line) q = q')
      (hc : c ∈ p.graph.graph.targets n site) (hb : p.graph.body? c = some b) :
      RunStep p ⟨q, ⟨n, .invoke iindex result args site line :: is⟩ :: stack⟩
        ⟨q', ⟨c, b.instructions⟩ :: ⟨n, is⟩ :: stack⟩
  /-- Back to the calling node at a return. -/
  | back {q : State} {n iindex : Nat} {value : Option ValueNumber} {line : UInt32}
      {is : List Instruction} {caller : Activation} {stack : List Activation} :
      RunStep p ⟨q, ⟨n, .ret iindex value line :: is⟩ :: caller :: stack⟩ ⟨q, caller :: stack⟩
  /-- Back to the calling node at the end of the body. -/
  | finish {q : State} {n : Nat} {caller : Activation} {stack : List Activation} :
      RunStep p ⟨q, ⟨n, []⟩ :: caller :: stack⟩ ⟨q, caller :: stack⟩

/-- What runs lead to. -/
abbrev Runs (p : Problem) : Config → Config → Prop := Relation.ReflTransGen (RunStep p)

/-! ### Runs stay within a solution -/

section

variable {p : Problem} {E X : Sets} {R : Set State} {n : Nat} {x : Node}

/-- From any of the given states the activation goes on within the solution. -/
def Ready (p : Problem) (E X : Sets) (R : Set State) (A : Set State) (a : Activation) : Prop :=
  ∃ x C, p.graph.graph.node? a.node = some x ∧ A ⊆ C ∧ WalkedWithin p E X R a.node x a.rest C

/-- Each waiting activation is ready for whatever the node above it may be left with. -/
def Waiting (p : Problem) (E X : Sets) (R : Set State) : Nat → List Activation → Prop
  | _, [] => True
  | callee, a :: stack => Ready p E X R (X callee) a ∧ Waiting p E X R a.node stack

/-- The state is known, and the activations go on within the solution. -/
def Safe (p : Problem) (E X : Sets) (R : Set State) (c : Config) : Prop :=
  c.state ∈ R ∧
    match c.stack with
    | [] => True
    | a :: stack => Ready p E X R {c.state} a ∧ Waiting p E X R a.node stack

/-- The topmost activation of a safe configuration walks on from a set with the state. -/
theorem Safe.walk {q : State} {a : Activation} {stack : List Activation}
    (h : Safe p E X R ⟨q, a :: stack⟩) (hx : p.graph.graph.node? a.node = some x) :
    Waiting p E X R a.node stack ∧
      ∃ C, q ∈ C ∧ WalkedWithin p E X R a.node x a.rest C := by
  obtain ⟨-, ⟨x', C, hx', hq, hwalked⟩, hwaiting⟩ := h
  rw [hx] at hx'
  cases hx'
  exact ⟨hwaiting, C, hq rfl, hwalked⟩

/-- A configuration whose topmost activation walks on from a set with the state is safe. -/
theorem safe_of_walk {q : State} {a : Activation} {stack : List Activation} {C : Set State}
    (hx : p.graph.graph.node? a.node = some x) (hq : q ∈ C)
    (hwalked : WalkedWithin p E X R a.node x a.rest C) (hwaiting : Waiting p E X R a.node stack) :
    Safe p E X R ⟨q, a :: stack⟩ :=
  ⟨hwalked.subset hq, ⟨x, C, hx, Set.singleton_subset_iff.mpr hq, hwalked⟩, hwaiting⟩

/-- Where the node above is left with a state, the waiting activation takes over safely. -/
theorem Waiting.resume {q : State} {caller : Activation} {stack : List Activation}
    (h : Waiting p E X R n (caller :: stack)) (hq : q ∈ X n) :
    Safe p E X R ⟨q, caller :: stack⟩ := by
  obtain ⟨⟨x, C, hx, hsub, hwalked⟩, hwaiting⟩ := h
  exact safe_of_walk hx (hsub hq) hwalked hwaiting

theorem node?_of_body? {g : BuiltGraph} {m : Nat} {b : Body} (h : g.body? m = some b) :
    ∃ y, g.graph.node? m = some y := by
  obtain ⟨y, hy, -⟩ := Option.bind_eq_some_iff.mp h
  exact ⟨y, hy⟩

theorem safe_of_starts {c : Config} (hsolves : SolvesWithin p E X R) (h : Starts p c) :
    Safe p E X R c := by
  cases h with
  | @entry m b hm hb =>
      obtain ⟨y, hy⟩ := node?_of_body? hb
      exact safe_of_walk hy (hsolves.initial m hm) (hsolves.walks m y b hy hb) trivial

/-- Every step of a run keeps it within the solution. -/
theorem Safe.step {c c' : Config} (hsolves : SolvesWithin p E X R) (h : Safe p E X R c)
    (hstep : RunStep p c c') : Safe p E X R c' := by
  cases hstep with
  | @along q q' m y i is stack hy hq' =>
      subst hq'
      obtain ⟨hwaiting, C, hq, hwalked⟩ := h.walk hy
      obtain ⟨-, -, -, hrest⟩ := walkedWithin_cons.mp hwalked
      exact safe_of_walk hy (subset_joined X _ _ (Set.mem_image_of_mem _ hq)) hrest hwaiting
  | @into q q' m c iindex y b result args site line is stack hy hq' hc hb =>
      subst hq'
      obtain ⟨hwaiting, C, hq, hwalked⟩ := h.walk hy
      obtain ⟨-, -, hcalls, hrest⟩ := walkedWithin_cons.mp hwalked
      obtain ⟨z, hz⟩ := node?_of_body? hb
      -- The called node starts from all that it may be entered with, and the calling node
      -- waits for all that the called node may be left with.
      refine safe_of_walk hz (hcalls.enters hc (Set.mem_image_of_mem _ hq))
        (hsolves.walks c z b hz hb) ⟨?_, hwaiting⟩
      exact ⟨y, _, hy, exit_subset_joined hc _, hrest⟩
  | @back q m iindex value line is caller stack =>
      obtain ⟨-, ⟨y, C, hy, hq, hwalked⟩, hwaiting⟩ := h
      obtain ⟨-, hret, -, -⟩ := walkedWithin_cons.mp hwalked
      exact hwaiting.resume ((hret rfl).1 ⟨q, hq rfl, rfl⟩)
  | @finish q m caller stack =>
      obtain ⟨-, ⟨y, C, hy, hq, hwalked⟩, hwaiting⟩ := h
      exact hwaiting.resume ((walkedWithin_nil.mp hwalked).1 (hq rfl))

theorem Safe.runs {c c' : Config} (hsolves : SolvesWithin p E X R) (h : Safe p E X R c)
    (hrun : Runs p c c') : Safe p E X R c' := by
  induction hrun with
  | refl => exact h
  | tail _ hlast ih => exact ih.step hsolves hlast

end

/-! ### Soundness -/

/-- Every state that occurs in any run is among the states that the solve gives the object. -/
theorem solve_sound_for_runs (limits : SolverLimits) (g : BuiltGraph) (h : Hierarchy)
    (protocol : Protocol) (tracked : TypeName) (monitor : Monitor) (S : Solution)
    (hsolve : (solve limits g h protocol tracked monitor).2 = .ok S) (i : Instance)
    (hi : i ∈ objectsOf g h tracked) (c c' : Config) (hstart : Starts ⟨g, protocol, i⟩ c)
    (hrun : Runs ⟨g, protocol, i⟩ c c') : c'.state ∈ S.statesOf i := by
  obtain ⟨s, hsettled, hstates⟩ := statesOf_eq_recorded hsolve hi
  have hsolves := hsettled.solvesWithin
  have hsafe := (safe_of_starts hsolves hstart).runs hsolves hrun
  have hmem : c'.state ∈ (S.statesOf i).members := by
    rw [hstates]
    exact hsafe.1
  exact hmem

/-! ### A method that calls itself before it uses an object -/

namespace Nested

def box : ClassInfo :=
  (ClassInfo.concrete .application "shop.Box").declare "use" [] "void" false false

def hierarchy : Hierarchy :=
  .ofClasses ⟨"shop"⟩ [ClassInfo.root .primordial, box] (by decide)

def main : MethodRef := ⟨⟨.application, ⟨"Lshop/Main"⟩⟩, "main", [], TypeName.void⟩

def use : MethodRef := ⟨box.typeRef, "use", [], TypeName.void⟩

def create : Instruction := .new 0 1 ⟨0, box.typeRef⟩ 1

def recur : Instruction := .invoke 1 none [] ⟨1, main, .static⟩ 2

def useBox : Instruction := .invoke 2 none [1] ⟨2, use, .virtual⟩ 3

def mainBody : Body :=
  ⟨main, true, [], [create, recur, useBox, .ret 3 none 4], [],
    ⟨[(1, .instruction 0)], 1, by decide⟩⟩

def useBody : Body :=
  ⟨use, false, [1], [.ret 0 none 5], [], ⟨[(1, .param 0 box.name)], 1, by decide⟩⟩

def created : Instance := Instance.allocated main ⟨0, box.typeRef⟩ CallString.empty

theorem nodup_entrypoints : ([1] : List Nat).Nodup := by decide

def graph : BuiltGraph where
  graph :=
    { nodes := [CallGraph.rootNode, ⟨main, .everywhere⟩, ⟨use, ⟨CallString.empty, some created⟩⟩]
      positions := [(⟨use, ⟨CallString.empty, some created⟩⟩, 2), (⟨main, .everywhere⟩, 1),
        (CallGraph.rootNode, CallGraph.root)]
      edges := [⟨1, ⟨2, use, .virtual⟩, 2⟩, ⟨1, ⟨1, main, .static⟩, 1⟩,
        ⟨CallGraph.root, ⟨0, main, .static⟩, 1⟩]
      entrypoints := [1]
      nodes_nodup := by decide
      positions_perm := by decide
      edges_nodup := by decide
      entrypoints_nodup := nodup_entrypoints }
  pointsTo := ⟨[((2, 1), OrdSet.ofList [created]), ((1, 1), OrdSet.ofList [created])]⟩
  bodies := [useBody, mainBody]
  depth := 0

def problem : Problem := ⟨graph, .eventTracking, created⟩

theorem solved : ∃ S, (solve {} graph hierarchy .eventTracking box.name .unlimited).2 = .ok S ∧
    (S.statesOf created).toList = [Protocol.created, Protocol.unobserved, Protocol.used] :=
  exists_ok_of_any (by decide +kernel)

/-- The inner activation creates the box and uses it, and goes back to the outer one. -/
theorem runs : Runs problem ⟨Protocol.unobserved, [⟨1, mainBody.instructions⟩]⟩
    ⟨Protocol.used, [⟨1, [useBox, .ret 3 none 4]⟩]⟩ := by
  have hcreate : afterInstruction problem 1 ⟨main, .everywhere⟩ create Protocol.unobserved =
      Protocol.created := by decide +kernel
  have hstay : ∀ i ∈ [create, recur],
      afterInstruction problem 1 ⟨main, .everywhere⟩ i Protocol.created = Protocol.created := by
    decide +kernel
  have huse : afterInstruction problem 1 ⟨main, .everywhere⟩ useBox Protocol.created =
      Protocol.used := by decide +kernel
  have hx : problem.graph.graph.node? 1 = some ⟨main, .everywhere⟩ := rfl
  have hmain : problem.graph.body? 1 = some mainBody := by decide +kernel
  have hagain : 1 ∈ problem.graph.graph.targets 1 ⟨1, main, .static⟩ := by decide +kernel
  have houter : Runs problem ⟨Protocol.unobserved, [⟨1, mainBody.instructions⟩]⟩
      ⟨Protocol.created, [⟨1, mainBody.instructions⟩, ⟨1, [useBox, .ret 3 none 4]⟩]⟩ :=
    (Relation.ReflTransGen.single (RunStep.along hx hcreate)).tail
      (RunStep.into hx (hstay recur (by simp)) hagain hmain)
  have hinner : Runs problem
      ⟨Protocol.created, [⟨1, mainBody.instructions⟩, ⟨1, [useBox, .ret 3 none 4]⟩]⟩
      ⟨Protocol.used, [⟨1, [.ret 3 none 4]⟩, ⟨1, [useBox, .ret 3 none 4]⟩]⟩ :=
    ((Relation.ReflTransGen.single (RunStep.along hx (hstay create (by simp)))).tail
      (RunStep.along hx (hstay recur (by simp)))).tail (RunStep.along hx huse)
  exact (houter.trans hinner).tail RunStep.back

/-- The graph is one that a construction builds, the solve succeeds, and the state that the run
    ends in is found. -/
theorem solve_sound_for_runs_nested :
    (Construction.build ⟨hierarchy, BodyStore.provider ⟨[.body mainBody, .body useBody]⟩, 0⟩ [main]
      .unlimited).result = .ok graph ∧
    ∃ S, (solve {} graph hierarchy .eventTracking box.name .unlimited).2 = .ok S ∧
      created ∈ objectsOf graph hierarchy box.name ∧
      Starts problem ⟨Protocol.unobserved, [⟨1, mainBody.instructions⟩]⟩ ∧
      Runs problem ⟨Protocol.unobserved, [⟨1, mainBody.instructions⟩]⟩
        ⟨Protocol.used, [⟨1, [useBox, .ret 3 none 4]⟩]⟩ ∧
      Protocol.used ∈ S.statesOf created := by
  obtain ⟨g, hg, rfl⟩ : ∃ g, (Construction.build
      ⟨hierarchy, BodyStore.provider ⟨[.body mainBody, .body useBody]⟩, 0⟩ [main]
      .unlimited).result = .ok g ∧ g = graph :=
    Construction.exists_built_of_any 20 (by decide +kernel)
  obtain ⟨S, hsolve, -⟩ := solved
  have hobject : created ∈ objectsOf graph hierarchy box.name := by decide +kernel
  have hstart : Starts problem ⟨Protocol.unobserved, [⟨1, mainBody.instructions⟩]⟩ :=
    Starts.entry (n := 1) (b := mainBody) (by decide) (by decide +kernel)
  exact ⟨hg, S, hsolve, hobject, hstart, runs,
    solve_sound_for_runs _ _ _ _ _ _ S hsolve created hobject _ _ hstart runs⟩

end Nested

end Typestate
end StreamVerdict
