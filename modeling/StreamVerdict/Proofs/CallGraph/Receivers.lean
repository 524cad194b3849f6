/-
  A node with a receiver knows its receiver exactly.

  The receiver is part of the node, and whoever calls the node passes it to the first parameter.
  Nothing else gets there: calls pass their arguments to the other parameters, and in a drafted
  body no merge, no allocation and no result of a call is a parameter.  So the calls that a
  method makes on its own receiver lead to one method.
-/
import StreamVerdict.Proofs.CallGraph.Grounded
import StreamVerdict.Proofs.CallGraph.ReturnFlow

namespace StreamVerdict
namespace Construction

variable {p : Plan} {entrypoints : List MethodRef}

/-! ### Nothing but the receiver -/

/-- In a node with a receiver, no other object can be derived for the first parameter. -/
theorem Derivable.eq_receiver {x : Node} {b : Body} {r o : Instance} {this : ValueNumber}
    (h : Derivable p entrypoints (.holds x this o))
    (hbody : p.provider.request x.method = .ok (some b)) (hdrafted : b.Drafted)
    (hinst : b.isStatic = false) (hr : x.context.receiver = some r)
    (hthis : b.params[0]? = some this) : o = r := by
  have hundefined : ¬ b.Defines this := hdrafted.not_defines_param (List.mem_of_getElem? hthis)
  -- The parameters have different numbers, so that no other position is meant.
  have hfirst : ∀ j, b.params[j]? = some this → j = 0 := by
    intro j hj
    have hj' := hdrafted.eq_of_param hj
    rw [hdrafted.eq_of_param hthis] at hj'
    exact (Nat.succ.inj hj').symm
  cases h with
  | entryReceiver hentry _ _ => exact Option.some.inj hr
  | entryArgument hentry hother hv _ _ =>
      have hb := hentry.body.symm.trans hbody
      cases hb
      exact absurd ⟨hfirst _ hv, hinst⟩ hother
  | phi _ hbody' hphi _ _ =>
      rw [hbody] at hbody'
      cases hbody'
      exact absurd (Or.inl ⟨_, hphi, rfl⟩) hundefined
  | allocation _ hbody' hnew =>
      rw [hbody] at hbody'
      cases hbody'
      exact absurd (Or.inr ⟨_, hnew, rfl⟩) hundefined
  | receiver _ _ _ _ => exact Option.some.inj hr
  | argument _ hbody' hother hv _ _ =>
      have hb := hbody'.symm.trans hbody
      cases hb
      exact absurd ⟨hfirst _ hv, hinst, Option.isSome_of_eq_some hr⟩ hother
  | returned _ hcaller hcall _ _ _ =>
      rw [hbody] at hcaller
      cases hcaller
      exact absurd (Or.inr ⟨_, hcall, rfl⟩) hundefined

/-! ### The receiver arrives -/

/-- The node of an entry point holds the receiver that it is run on. -/
theorem Invariant.entry_receiver {s : Progress} {n i : Nat} {entry : MethodRef} {b : Body}
    {r : Instance} {this : ValueNumber} (hinv : Invariant p entrypoints s)
    (hentry : IsEntryPoint p entrypoints i entry b (some r))
    (hn : s.graph.node? n = some (entryNode p (entrySite (entry, i) b) (some r)))
    (hinst : b.isStatic = false) (hthis : b.params[0]? = some this) :
    r ∈ s.pointsTo.get n this := by
  have hmem : (entry, i) ∈ entrypoints.zipIdx := List.mem_zipIdx_iff_getElem?.mpr hentry.listed
  obtain ⟨b', hb', hseeded⟩ := hinv.seeded (entry, i) hmem
  have hb : Except.ok (some b) = Except.ok (some b') := hentry.body.symm.trans hb'
  cases hb
  obtain ⟨m, hm, -, -, hparams⟩ := hseeded (some r) (mem_entryReceivers.mpr hentry.receiver)
  obtain rfl : m = n := CallGraph.node?_inj hm hn
  exact hparams 0 this hthis r (mem_entryArgument_receiver hinst)

/-- At the end of a construction every node with a receiver holds it in its first parameter. -/
theorem Invariant.mem_receiver {s : Progress} {n : Nat} {x : Node} {b : Body} {r : Instance}
    {this : ValueNumber} (hinv : Invariant p entrypoints s) (hempty : s.queue = [])
    (hgrounded : Grounded p entrypoints s.graph s.pointsTo) (hx : s.graph.node? n = some x)
    (hbody : p.provider.request x.method = .ok (some b)) (hinst : b.isStatic = false)
    (hr : x.context.receiver = some r) (hthis : b.params[0]? = some this) :
    r ∈ s.pointsTo.get n this := by
  -- The node was called, by the root or in the body of another node.
  rcases hgrounded.called n x hx with rfl | ⟨m, site, -, he⟩
  · rw [hinv.root] at hx
    cases hx
    cases hr
  · have hofEntry : s.graph.IsEntry ⟨m, site, n⟩ → r ∈ s.pointsTo.get n this := by
      intro hentry
      obtain ⟨i, entry, b', receiver, hpoint, hn⟩ := hgrounded.entry n hentry.2
      obtain rfl : x = entryNode p (entrySite (entry, i) b') receiver :=
        Option.some.inj (hx.symm.trans hn)
      have hreceiver : receiver = some r := hr
      subst hreceiver
      have hb : Except.ok (some b) = Except.ok (some b') := hbody.symm.trans hpoint.body
      cases hb
      exact hinv.entry_receiver hpoint hn hinst hthis
    rcases hinv.edges _ he with hentry | ⟨y, c, hy, hc, hstems⟩
    · exact hofEntry hentry
    · obtain ⟨k, result, args, line, pts, t, hins, hle, ht, hn⟩ := hstems
      obtain rfl : x = calledNode p y site t := Option.some.inj (hx.symm.trans hn)
      have hreceiver : t.2 = some r := hr
      rcases mem_targets_of_le (hle m) ht with hnow | houtdated
      · rcases hinv.closed m y c hy hc with hqueued | hclosed | ⟨hroot, huntouched⟩
        · rw [hempty] at hqueued
          cases hqueued
        · obtain ⟨n', hn', -, hpassed⟩ := hclosed.calls k result args site line hins t hnow
          obtain rfl : n' = n := CallGraph.node?_inj hn' hx
          obtain ⟨hparams, -, -⟩ := hpassed b hbody
          refine hparams 0 this hthis r ?_
          rw [hreceiver]
          exact mem_passed_receiver hinst
        · exact hofEntry (huntouched _ he hroot)
      · -- Only a call without a receiver can be outdated.
        have hnone : t.2 = none := houtdated.2.1
        rw [hreceiver] at hnone
        cases hnone

/-! ### Calls on the receiver -/

/-- A dispatching call with one receiver leads to the method that is found for the class of the
    receiver, run on the receiver. -/
theorem Invariant.target_of_receiver {s : Progress} {n k c : Nat} {x : Node} {b : Body}
    {result : Option ValueNumber} {args : List ValueNumber} {site : CallSite} {line : UInt32}
    {v : ValueNumber} {r : Instance} (hinv : Invariant p entrypoints s)
    (hx : s.graph.node? n = some x) (hbody : p.provider.request x.method = .ok (some b))
    (hdrafted : b.Drafted) (hins : Instruction.invoke k result args site line ∈ b.instructions)
    (hkind : site.kind.isDispatch = true) (hargs : args.head? = some v)
    (hexact : ∀ o ∈ s.pointsTo.get n v, o = r) (hcaller : n ≠ CallGraph.root)
    (he : ⟨n, site, c⟩ ∈ s.graph.edges) :
    ∃ m, p.hierarchy.dispatch? r.type.name site.declaredTarget = some m ∧
      s.graph.node? c = some (calledNode p x site (m, some r)) := by
  rcases hinv.edges _ he with hentry | ⟨x', b', hx', hb', hstems⟩
  · exact absurd hentry.1 hcaller
  · obtain rfl : x = x' := Option.some.inj (hx.symm.trans hx')
    rw [hbody] at hb'
    cases hb'
    obtain ⟨k', result', args', line', pts, t, hins', hle, ht, hnode⟩ := hstems
    -- The call that the edge stems from is the one at hand: they share the program counter.
    have hsame := hdrafted.eq_of_programCounter hins hins' rfl rfl
    cases hsame
    obtain ⟨w, q, hw, hq, hm, hreceiver⟩ := exists_receiver_of_mem_targets hkind ht
    rw [hargs] at hw
    cases hw
    obtain rfl : q = r := hexact q (hle _ _ q hq)
    have ht' : t = (t.1, some q) := Prod.ext rfl hreceiver
    rw [ht'] at hnode
    exact ⟨t.1, hm, hnode⟩

/-- Over drafted bodies, the first parameter of a node with a receiver, whose body is that of an
    instance method, holds the receiver and nothing else.  So a dispatching call on it leads to
    one node at most: to the method that is found for the class of the receiver, run on the
    receiver. -/
theorem build_receiver_exact (p : Plan) (entrypoints : List MethodRef) (monitor : Monitor)
    (g : BuiltGraph) (hdrafted : ∀ m b, p.provider.request m = .ok (some b) → b.Drafted)
    (h : (build p entrypoints monitor).result = .ok g) (n : Nat) (x : Node) (b : Body)
    (r : Instance) (hx : g.graph.node? n = some x)
    (hbody : p.provider.request x.method = .ok (some b)) (hinst : b.isStatic = false)
    (hr : x.context.receiver = some r) :
    ∃ this, b.params[0]? = some this ∧ (∀ o, o ∈ g.pointsTo.get n this ↔ o = r) ∧
      ∀ k result args site line, Instruction.invoke k result args site line ∈ b.instructions →
        site.kind.isDispatch = true → args.head? = some this →
        (∀ c ∈ g.graph.targets n site, ∃ m,
          p.hierarchy.dispatch? r.type.name site.declaredTarget = some m ∧
          g.graph.node? c = some (calledNode p x site (m, some r))) ∧
        ∀ c ∈ g.graph.targets n site, ∀ c' ∈ g.graph.targets n site, c = c' := by
  have hgrounded := grounded_of_build h
  obtain ⟨s, hinv, hempty, rfl⟩ := invariant_of_build h
  have hb := hdrafted x.method b hbody
  have hthis := hb.exists_receiver hinst
  have hexact : ∀ o, o ∈ s.pointsTo.get n 1 ↔ o = r := by
    intro o
    constructor
    · intro ho
      exact (hgrounded.derivable_holds hx ho).eq_receiver hbody hb hinst hr hthis
    · rintro rfl
      exact hinv.mem_receiver hempty hgrounded hx hbody hinst hr hthis
  have hcaller : n ≠ CallGraph.root := by
    rintro rfl
    have hroot := hx.symm.trans hinv.root
    cases hroot
    cases hr
  refine ⟨1, hthis, hexact, ?_⟩
  intro k result args site line hins hkind hargs
  have htarget : ∀ c ∈ s.graph.targets n site, ∃ m,
      p.hierarchy.dispatch? r.type.name site.declaredTarget = some m ∧
      s.graph.node? c = some (calledNode p x site (m, some r)) := by
    intro c hc
    exact hinv.target_of_receiver hx hbody hb hins hkind hargs (fun o => (hexact o).mp) hcaller
      (CallGraph.mem_targets.mp hc)
  refine ⟨htarget, ?_⟩
  intro c hc c' hc'
  obtain ⟨m, hm, hnode⟩ := htarget c hc
  obtain ⟨m', hm', hnode'⟩ := htarget c' hc'
  rw [hm] at hm'
  cases hm'
  exact CallGraph.node?_inj hnode hnode'

/-! ### A method that is run on two objects -/

namespace Pouring

open Echo

def cup : ClassInfo :=
  ((ClassInfo.concrete .application "shop.Cup").declare "pour" [] "void" false false).declare
    "stir" [] "void" false false

def pour : MethodRef := ⟨cup.typeRef, "pour", [], TypeName.void⟩

def stir : MethodRef := ⟨cup.typeRef, "stir", [], TypeName.void⟩

/-- Pours one of two cups. -/
def mainDraft : Draft :=
  (((((Draft.start (plain "main") true).newObject cup.typeRef 1).2.newObject cup.typeRef 2).2.phi
    [1, 2]).2.invoke pour .virtual [3] 3).2

/-- Stirs the cup and pours it again. -/
def pourDraft : Draft :=
  (((Draft.start pour false).invoke stir .virtual [1] 4).2.invoke pour .virtual [1] 5).2

def plan : Plan :=
  ⟨.ofClasses ⟨"shop"⟩ [ClassInfo.root .primordial, cup] (by decide),
    (BodyStore.ofDrafts [mainDraft, pourDraft, Draft.start stir false]).provider, 0⟩

theorem drafted : ∀ m b, plan.provider.request m = .ok (some b) → b.Drafted := by
  intro m b h
  refine BodyStore.drafted_of_request ?_ h
  intro d hd
  simp only [List.mem_cons, List.not_mem_nil, or_false] at hd
  rcases hd with rfl | rfl | rfl
  · exact ⟨_, _, (((Draft.Written.start.newObject _ _).newObject _ _).phi _).invoke _ _ _ _⟩
  · exact ⟨_, _, (Draft.Written.start.invoke _ _ _ _).invoke _ _ _ _⟩
  · exact ⟨_, _, Draft.Written.start⟩

def firstCup : Instance := Instance.allocated (plain "main") ⟨0, cup.typeRef⟩ CallString.empty

def secondCup : Instance := Instance.allocated (plain "main") ⟨1, cup.typeRef⟩ CallString.empty

/-- The node of the method on one of the cups. -/
def pouring (r : Instance) : Node := ⟨pour, ⟨CallString.empty, some r⟩⟩

theorem built : ∃ g, (build plan [plain "main"] .unlimited).result = .ok g ∧
    g.graph.node? 2 = some (pouring firstCup) ∧ g.graph.node? 3 = some (pouring secondCup) ∧
    4 ∈ g.graph.targets 2 ⟨0, stir, .virtual⟩ :=
  exists_built_of_any 40 (by decide +kernel)

theorem request_pour : plan.provider.request pour = .ok (some pourDraft.body) := by
  obtain ⟨_, h, rfl⟩ := exists_ok_of_any (x := plan.provider.request pour)
    (P := fun answer => answer = some pourDraft.body) (by decide +kernel)
  exact h

/-- Each of the two nodes knows its own cup, and the first one stirs its cup only. -/
theorem build_receiver_exact_pouring :
    (∀ m b, plan.provider.request m = .ok (some b) → b.Drafted) ∧
    ∃ g, (build plan [plain "main"] .unlimited).result = .ok g ∧
      g.graph.node? 2 = some (pouring firstCup) ∧ g.graph.node? 3 = some (pouring secondCup) ∧
      plan.provider.request pour = .ok (some pourDraft.body) ∧ pourDraft.body.isStatic = false ∧
      (∀ o, o ∈ g.pointsTo.get 2 1 ↔ o = firstCup) ∧
      (∀ o, o ∈ g.pointsTo.get 3 1 ↔ o = secondCup) ∧
      ∀ c, c ∈ g.graph.targets 2 ⟨0, stir, .virtual⟩ ↔ c = 4 := by
  obtain ⟨g, hg, hfirst, hsecond, hstir⟩ := built
  have hthis : pourDraft.body.params[0]? = some 1 := by decide +kernel
  obtain ⟨this, hthis₁, hexact₁, hcalls⟩ := build_receiver_exact plan _ .unlimited g drafted hg 2
    (pouring firstCup) pourDraft.body firstCup hfirst request_pour rfl rfl
  obtain ⟨this', hthis₂, hexact₂, -⟩ := build_receiver_exact plan _ .unlimited g drafted hg 3
    (pouring secondCup) pourDraft.body secondCup hsecond request_pour rfl rfl
  rw [hthis] at hthis₁ hthis₂
  cases hthis₁
  cases hthis₂
  refine ⟨drafted, g, hg, hfirst, hsecond, request_pour, rfl, hexact₁, hexact₂, ?_⟩
  obtain ⟨-, hone⟩ := hcalls 0 none [1] ⟨0, stir, .virtual⟩ 4 (by decide +kernel) rfl rfl
  intro c
  constructor
  · intro hc
    exact hone c hc 4 hstir
  · rintro rfl
    exact hstir

end Pouring

end Construction
end StreamVerdict
