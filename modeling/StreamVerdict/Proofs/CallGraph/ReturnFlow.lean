/-
  What a built call graph knows of returned objects.

  A node whose own sets grew queues its callers, so that what it returns comes back to them.
  Growth of a parameter, however, is brought about by a caller, and queues the called node
  alone.  A returned object can therefore be missing from the result of a call if the called
  node returns one of its parameters, if the call now has receivers and no longer leads to the
  node it was followed to without one, or if it is an entry point's and the root has a body.
  There is no other way: a graph is closed under return flow exactly if all objects that are
  at risk in one of these ways have arrived.
-/
import StreamVerdict.Proofs.Body.SingleAssignment
import StreamVerdict.Proofs.CallGraph.FlowClosure

namespace StreamVerdict
namespace Construction

/-! ### Targets of a call while the points-to sets grow -/

/-- The call was followed without a receiver, and now it has receivers. -/
def Outdated (pts : PointsTo) (n : Nat) (args : List ValueNumber) (site : CallSite)
    (receiver : Option Instance) : Prop :=
  site.kind = .special ∧ receiver = none ∧ ∃ v o, args.head? = some v ∧ o ∈ pts.get n v

/-- A target stays one while the sets of the calling node grow, unless it is outdated. -/
theorem mem_targets_of_le {p : Plan} {pts pts' : PointsTo} {n : Nat}
    (h : ∀ v, pts.get n v ⊆ pts'.get n v) {args : List ValueNumber} {site : CallSite}
    {t : MethodRef × Option Instance} (ht : t ∈ targets p pts n args site) :
    t ∈ targets p pts' n args site ∨ Outdated pts' n args site t.2 := by
  have hmem : ∀ v o, o ∈ (pts.get n v).toList → o ∈ (pts'.get n v).toList := fun v o => h v o
  simp only [targets] at ht ⊢
  by_cases hstatic : site.kind.isStatic
  · simp only [hstatic, if_true] at ht ⊢
    exact Or.inl ht
  · rcases hargs : args.head? with _ | v
    · simp only [hargs] at ht
      exact Or.inl ht
    · simp only [hargs, hstatic, Bool.false_eq_true, if_false] at ht ⊢
      by_cases hdispatch : site.kind.isDispatch
      · simp only [hdispatch, if_true, List.mem_filterMap] at ht ⊢
        obtain ⟨r, hr, hdisp⟩ := ht
        exact Or.inl ⟨r, hmem v r hr, hdisp⟩
      · have hspecial : site.kind = .special := by
          cases hkind : site.kind with
          | virtual => rw [hkind] at hdispatch; exact absurd rfl hdispatch
          | interface => rw [hkind] at hdispatch; exact absurd rfl hdispatch
          | special => rfl
          | static => rw [hkind] at hstatic; exact absurd rfl hstatic
        simp only [hdispatch, Bool.false_eq_true, if_false] at ht ⊢
        rcases hnow : (pts'.get n v).toList with _ | ⟨o, rest⟩
        · -- There are no receivers now, hence there were none before.
          have hbefore : (pts.get n v).toList = [] := by
            rw [List.eq_nil_iff_forall_not_mem]
            intro r hr
            have hr' := hmem v r hr
            rw [hnow] at hr'
            cases hr'
          rw [hbefore] at ht
          exact Or.inl ht
        · have ho : o ∈ pts'.get n v := by
            rw [← OrdSet.mem_toList, hnow]
            exact List.mem_cons_self
          rcases hbefore : (pts.get n v).toList with _ | ⟨r, rs⟩
          · -- The receivers are all new, and the call without one has been replaced.
            rw [hbefore] at ht
            rw [List.isEmpty_nil, if_pos rfl, List.mem_singleton] at ht
            rw [ht]
            exact Or.inr ⟨hspecial, rfl, v, o, hargs, ho⟩
          · rw [hbefore, List.isEmpty_cons, if_neg Bool.false_ne_true, List.mem_map] at ht
            obtain ⟨q, hq, rfl⟩ := ht
            rw [← hbefore] at hq
            rw [List.isEmpty_cons, if_neg Bool.false_ne_true, ← hnow]
            exact Or.inl (List.mem_map_of_mem (hmem v q hq))

/-! ### Returned objects -/

/-- The edge stems from a call with a result, and the called node, which is `y` with body `c`,
    returns the value `w`, which may hold the object `o`. -/
structure Returned (p : Plan) (g : BuiltGraph) (e : Edge) (result : ValueNumber)
    (args : List ValueNumber) (y : Node) (c : Body) (w : ValueNumber) (o : Instance) : Prop where
  edge : e ∈ g.graph.edges
  call : ∃ x b i line, g.graph.node? e.caller = some x ∧
    p.provider.request x.method = .ok (some b) ∧
    Instruction.invoke i (some result) args e.site line ∈ b.instructions
  node : g.graph.node? e.callee = some y
  body : p.provider.request y.method = .ok (some c)
  value : w ∈ c.returnValues
  object : o ∈ g.pointsTo.get e.callee w

/-- The result of every call holds whatever the called nodes return. -/
def ReturnClosed (p : Plan) (g : BuiltGraph) : Prop :=
  ∀ e result args y c w o, Returned p g e result args y c w o → o ∈ g.pointsTo.get e.caller result

/-- The ways in which a returned object can fail to arrive. -/
inductive AtRisk (g : BuiltGraph) (e : Edge) (args : List ValueNumber) (y : Node) (c : Body)
    (w : ValueNumber) (o : Instance) : Prop where
  /-- A parameter is returned, and this call does not pass the object to it. -/
  | parameter (hw : w ∈ c.params)
      (hpassed : ∀ i, c.params[i]? = some w →
        o ∉ passed g.pointsTo e.caller args y.context.receiver c.isStatic i)
  /-- The call was followed without a receiver, and now it has receivers. -/
  | outdated (h : Outdated g.pointsTo e.caller args e.site y.context.receiver)
  /-- The edge leads from the root to an entry point. -/
  | entry (h : g.graph.IsEntry e)

/-- No body returns a parameter or makes a special call, and the root has no body. -/
structure RiskFree (p : Plan) : Prop where
  returns : ∀ m b, p.provider.request m = .ok (some b) → ∀ w ∈ b.returnValues, w ∉ b.params
  calls : ∀ m b, p.provider.request m = .ok (some b) → ∀ i result args site line,
    Instruction.invoke i result args site line ∈ b.instructions → site.kind ≠ .special
  root : ∀ b, p.provider.request CallGraph.rootMethod ≠ .ok (some b)

variable {p : Plan} {entrypoints : List MethodRef} {s : Progress}

theorem RiskFree.not_atRisk {g : BuiltGraph} {e : Edge} {result w : ValueNumber}
    {args : List ValueNumber} {y : Node} {c : Body} {o : Instance} (h : RiskFree p)
    (hroot : g.graph.node? CallGraph.root = some CallGraph.rootNode)
    (hr : Returned p g e result args y c w o) : ¬ AtRisk g e args y c w o := by
  obtain ⟨x, b, i, line, hx, hb, hins⟩ := hr.call
  intro hrisk
  cases hrisk with
  | parameter hw _ => exact h.returns y.method c hr.body w hr.value hw
  | outdated hold => exact h.calls x.method b hb i _ args e.site line hins hold.1
  | entry hentry =>
      -- The calling node has a body, and so it is not the root.
      rw [hentry.1, hroot] at hx
      cases hx
      exact h.root b hb

/-- A call that has been followed to a node brings back what the node returns, parameters
    apart; of these it brings back what it passes. -/
theorem Followed.arrives {g : BuiltGraph} {e : Edge} {x y : Node} {c : Body}
    {result w : ValueNumber} {args : List ValueNumber} {t : MethodRef × Option Instance}
    {o : Instance} (h : Followed p g.graph g.pointsTo g.pointsTo e.caller x (some result) args e.site t)
    (hy : y = calledNode p x e.site t)
    (hr : Returned p g e result args y c w o) :
    o ∈ g.pointsTo.get e.caller result ∨ AtRisk g e args y c w o := by
  subst hy
  obtain ⟨n, hn, -, hbody⟩ := h
  obtain rfl : n = e.callee := CallGraph.node?_inj hn hr.node
  obtain ⟨-, hreturns, hround⟩ := hbody c hr.body
  -- Nothing but a parameter can have grown without the caller being queued.
  by_cases hw : w ∈ c.params
  · by_cases hpassed : ∃ i, c.params[i]? = some w ∧
        o ∈ passed g.pointsTo e.caller args t.2 c.isStatic i
    · obtain ⟨i, hi, ho⟩ := hpassed
      exact Or.inl (hround result rfl i w hi hr.value o ho)
    · refine Or.inr (AtRisk.parameter hw ?_)
      intro i hi ho
      exact hpassed ⟨i, hi, ho⟩
  · exact Or.inl (hreturns result rfl w hr.value o hr.object hw)

/-- At the end of a construction every returned object has arrived or is at risk. -/
theorem Invariant.arrives {g : BuiltGraph} {e : Edge} {result w : ValueNumber}
    {args : List ValueNumber} {y : Node} {c : Body} {o : Instance}
    (hinv : Invariant p entrypoints s) (hempty : s.queue = [])
    (hg : g = ⟨s.graph, s.pointsTo, s.bodies, p.depth⟩)
    (hdrafted : ∀ m b, p.provider.request m = .ok (some b) → b.Drafted)
    (hr : Returned p g e result args y c w o) :
    o ∈ g.pointsTo.get e.caller result ∨ AtRisk g e args y c w o := by
  subst hg
  obtain ⟨x, b, i, line, hx, hb, hins⟩ := hr.call
  rcases hinv.edges e hr.edge with hentry | ⟨x', b', hx', hb', hstems⟩
  · exact Or.inr (AtRisk.entry hentry)
  · have hxx : some x = some x' := hx.symm.trans hx'
    cases hxx
    rw [hb] at hb'
    cases hb'
    obtain ⟨i', result', args', line', pts, t, hins', hle, ht, hnode⟩ := hstems
    -- The call that the edge stems from is the one at hand: they share the program counter.
    have hsame := (hdrafted x.method b hb).eq_of_programCounter hins hins' rfl rfl
    cases hsame
    have hy : some y = some (calledNode p x e.site t) := hr.node.symm.trans hnode
    rw [Option.some.injEq] at hy
    rcases mem_targets_of_le (hle e.caller) ht with hnow | houtdated
    · rcases hinv.closed e.caller x b hx hb with hqueued | hclosed | ⟨hroot, huntouched⟩
      · rw [hempty] at hqueued
        cases hqueued
      · exact (hclosed.calls i _ args e.site line hins t hnow).arrives hy hr
      · exact Or.inr (AtRisk.entry (huntouched e hr.edge hroot))
    · refine Or.inr (AtRisk.outdated ?_)
      rw [hy]
      exact houtdated

/-- In a built call graph of drafted bodies every returned object has arrived or is at risk: it
    is in a returned parameter to which the call does not pass it, or comes from a node that
    the call no longer leads to, or from an entry point that the root calls.  So the graph is
    closed under return flow exactly if the objects at risk have arrived, and always if there
    is no risk. -/
theorem build_returnClosed_iff (p : Plan) (entrypoints : List MethodRef) (monitor : Monitor)
    (g : BuiltGraph) (hdrafted : ∀ m b, p.provider.request m = .ok (some b) → b.Drafted)
    (h : (build p entrypoints monitor).result = .ok g) :
    (∀ e result args y c w o, Returned p g e result args y c w o →
      o ∈ g.pointsTo.get e.caller result ∨ AtRisk g e args y c w o) ∧
    (ReturnClosed p g ↔ ∀ e result args y c w o, Returned p g e result args y c w o →
      AtRisk g e args y c w o → o ∈ g.pointsTo.get e.caller result) ∧
    (RiskFree p → ReturnClosed p g) := by
  obtain ⟨s, hinv, hempty, hg⟩ := invariant_of_build h
  have harrives : ∀ e result args y c w o, Returned p g e result args y c w o →
      o ∈ g.pointsTo.get e.caller result ∨ AtRisk g e args y c w o :=
    fun _ _ _ _ _ _ _ hr => hinv.arrives hempty hg hdrafted hr
  refine ⟨harrives, ⟨?_, ?_⟩, ?_⟩
  · intro hclosed e result args y c w o hr _
    exact hclosed e result args y c w o hr
  · intro hsafe e result args y c w o hr
    rcases harrives e result args y c w o hr with harrived | hrisk
    · exact harrived
    · exact hsafe e result args y c w o hr hrisk
  · intro hfree e result args y c w o hr
    have hroot : g.graph.node? CallGraph.root = some CallGraph.rootNode := by
      rw [hg]
      exact hinv.root
    rcases harrives e result args y c w o hr with harrived | hrisk
    · exact harrived
    · exact absurd hrisk (hfree.not_atRisk hroot hr)

/-! ### A method that returns its parameter -/

namespace Echo

def main : TypeRef := ⟨.application, ⟨"Lshop/Main"⟩⟩

def apple : TypeRef := ⟨.application, ⟨"Lshop/Apple"⟩⟩

def pear : TypeRef := ⟨.application, ⟨"Lshop/Pear"⟩⟩

/-- A method without parameters and result. -/
def plain (name : String) : MethodRef := ⟨main, name, [], TypeName.void⟩

def echo : MethodRef := ⟨main, "echo", [ClassInfo.rootName], ClassInfo.rootName⟩

/-- Allocates an object and echoes it. -/
def echoing (name : String) (t : TypeRef) : Draft :=
  (((Draft.start (plain name) true).newObject t 1).2.invoke echo .static [1] 2).2

/-- The second entry point echoes a pear by way of another method, so that the pear reaches the
    echo after the caller with the apple is done. -/
def drafts : List Draft :=
  [echoing "first" apple,
    ((Draft.start (plain "second") true).invoke (plain "later") .static [] 3).2,
    echoing "later" pear, (Draft.start echo true).ret (some 1) 4]

def plan : Plan := ⟨.empty ⟨"shop"⟩, (BodyStore.ofDrafts drafts).provider, 0⟩

theorem drafted : ∀ m b, plan.provider.request m = .ok (some b) → b.Drafted := by
  intro m b h
  refine BodyStore.drafted_of_request ?_ h
  intro d hd
  simp only [drafts, List.mem_cons, List.not_mem_nil, or_false] at hd
  rcases hd with rfl | rfl | rfl | rfl
  · exact ⟨_, _, (Draft.Written.start.newObject _ _).invoke _ _ _ _⟩
  · exact ⟨_, _, Draft.Written.start.invoke _ _ _ _⟩
  · exact ⟨_, _, (Draft.Written.start.newObject _ _).invoke _ _ _ _⟩
  · exact ⟨_, _, Draft.Written.start.ret _ _⟩

def call : CallSite := ⟨1, echo, .static⟩

def latePear : Instance := Instance.allocated (plain "later") ⟨0, pear⟩ CallString.empty

theorem built : ∃ g, (build plan [plain "first", plain "second"] .unlimited).result = .ok g ∧
    ⟨1, call, 3⟩ ∈ g.graph.edges ∧ g.graph.node? 1 = some ⟨plain "first", .everywhere⟩ ∧
    g.graph.node? 3 = some ⟨echo, .everywhere⟩ ∧ latePear ∈ g.pointsTo.get 3 1 ∧
    latePear ∉ g.pointsTo.get 1 2 :=
  exists_built_of_any 40 (by decide +kernel)

theorem request_first : plan.provider.request (plain "first") =
    .ok (some (echoing "first" apple).body) := by rfl

theorem request_echo : plan.provider.request echo =
    .ok (some ((Draft.start echo true).ret (some 1) 4).body) := by rfl

theorem returned {g : BuiltGraph} (hedge : ⟨1, call, 3⟩ ∈ g.graph.edges)
    (hfirst : g.graph.node? 1 = some ⟨plain "first", .everywhere⟩)
    (hecho : g.graph.node? 3 = some ⟨echo, .everywhere⟩) (ho : latePear ∈ g.pointsTo.get 3 1) :
    Returned plan g ⟨1, call, 3⟩ 2 [1] ⟨echo, .everywhere⟩
      ((Draft.start echo true).ret (some 1) 4).body 1 latePear :=
  ⟨hedge, ⟨_, _, 1, 2, hfirst, request_first, List.mem_cons_of_mem _ List.mem_cons_self⟩, hecho,
    request_echo, List.mem_cons_self, ho⟩

/-- The pear that the echo returns is at risk. -/
theorem build_returnClosed_iff_echo :
    (∀ m b, plan.provider.request m = .ok (some b) → b.Drafted) ∧
    ∃ g, (build plan [plain "first", plain "second"] .unlimited).result = .ok g ∧
      Returned plan g ⟨1, call, 3⟩ 2 [1] ⟨echo, .everywhere⟩
        ((Draft.start echo true).ret (some 1) 4).body 1 latePear ∧
      AtRisk g ⟨1, call, 3⟩ [1] ⟨echo, .everywhere⟩
        ((Draft.start echo true).ret (some 1) 4).body 1 latePear ∧
      (ReturnClosed plan g ↔ ∀ e result args y c w o, Returned plan g e result args y c w o →
        AtRisk g e args y c w o → o ∈ g.pointsTo.get e.caller result) := by
  obtain ⟨g, hg, hedge, hfirst, hecho, harg, hmissing⟩ := built
  obtain ⟨harrives, hiff, -⟩ := build_returnClosed_iff plan _ .unlimited g drafted hg
  have hr := returned hedge hfirst hecho harg
  rcases harrives _ _ _ _ _ _ _ hr with harrived | hrisk
  · exact absurd harrived hmissing
  · exact ⟨drafted, g, hg, hr, hrisk, hiff⟩

/-- The pear that the echo returns is missing from the result of the call with the apple. -/
theorem build_not_returnClosed :
    (∀ m b, plan.provider.request m = .ok (some b) → b.Drafted) ∧
    ∃ g, (build plan [plain "first", plain "second"] .unlimited).result = .ok g ∧
      ¬ ReturnClosed plan g := by
  obtain ⟨g, hg, hedge, hfirst, hecho, harg, hmissing⟩ := built
  refine ⟨drafted, g, hg, ?_⟩
  intro hclosed
  exact hmissing (hclosed _ _ _ _ _ _ _ (returned hedge hfirst hecho harg))

end Echo

/-! ### A receiver that is known too late -/

namespace Late

open Echo

def box : TypeRef := ⟨.application, ⟨"Lshop/Box"⟩⟩

def make : MethodRef := ⟨main, "make", [], ClassInfo.rootName⟩

def put : MethodRef := ⟨box, "put", [ClassInfo.rootName], ClassInfo.rootName⟩

def makeDraft : Draft := ((Draft.start make true).newObject box 1).2.ret (some 1) 2

/-- Calls `put` on what `make` returns, which is not known when the call is followed first. -/
def fillDraft : Draft :=
  ((((Draft.start (plain "fill") true).invoke make .static [] 3).2.newObject apple 4).2.invoke put
    .special [1, 2] 5).2

/-- Calls `put` without a receiver. -/
def spillDraft : Draft :=
  (((Draft.start (plain "spill") true).null.2.newObject pear 6).2.invoke put .special [1, 2] 7).2

/-- Returns the argument by way of a merge. -/
def putDraft : Draft := ((Draft.start put false).phi [2]).2.ret (some 3) 8

def plan : Plan :=
  ⟨.empty ⟨"shop"⟩, (BodyStore.ofDrafts [makeDraft, fillDraft, spillDraft, putDraft]).provider, 0⟩

theorem drafted : ∀ m b, plan.provider.request m = .ok (some b) → b.Drafted := by
  intro m b h
  refine BodyStore.drafted_of_request ?_ h
  intro d hd
  simp only [List.mem_cons, List.not_mem_nil, or_false] at hd
  rcases hd with rfl | rfl | rfl | rfl
  · exact ⟨_, _, (Draft.Written.start.newObject _ _).ret _ _⟩
  · exact ⟨_, _, ((Draft.Written.start.invoke _ _ _ _).newObject _ _).invoke _ _ _ _⟩
  · exact ⟨_, _, (Draft.Written.start.null.newObject _ _).invoke _ _ _ _⟩
  · exact ⟨_, _, (Draft.Written.start.phi _).ret _ _⟩

def call : CallSite := ⟨2, put, .special⟩

def spilt : Instance := Instance.allocated (plain "spill") ⟨0, pear⟩ CallString.empty

theorem built : ∃ g, (build plan [plain "fill", plain "spill"] .unlimited).result = .ok g ∧
    ⟨1, call, 4⟩ ∈ g.graph.edges ∧ g.graph.node? 1 = some ⟨plain "fill", .everywhere⟩ ∧
    g.graph.node? 4 = some ⟨put, .everywhere⟩ ∧ spilt ∈ g.pointsTo.get 4 3 ∧
    spilt ∉ g.pointsTo.get 1 3 :=
  exists_built_of_any 40 (by decide +kernel)

theorem request_fill : plan.provider.request (plain "fill") = .ok (some fillDraft.body) := by rfl

theorem request_put : plan.provider.request put = .ok (some putDraft.body) := by
  obtain ⟨_, h, rfl⟩ := exists_ok_of_any (x := plan.provider.request put)
    (P := fun answer => answer = some putDraft.body) (by decide +kernel)
  exact h

/-- No parameter is returned, and still an object is missing: the edge to the node without a
    receiver is no longer followed. -/
theorem not_returnClosed :
    (∀ m b, plan.provider.request m = .ok (some b) → b.Drafted) ∧
    (∀ w ∈ putDraft.body.returnValues, w ∉ putDraft.body.params) ∧
    ∃ g, (build plan [plain "fill", plain "spill"] .unlimited).result = .ok g ∧
      ¬ ReturnClosed plan g := by
  refine ⟨drafted, by decide, ?_⟩
  obtain ⟨g, hg, hedge, hfill, hput, hreturned, hmissing⟩ := built
  refine ⟨g, hg, ?_⟩
  intro hclosed
  exact hmissing (hclosed ⟨1, call, 4⟩ 3 [1, 2] _ _ 3 spilt ⟨hedge,
    ⟨_, _, 2, 5, hfill, request_fill,
      List.mem_cons_of_mem _ (List.mem_cons_of_mem _ List.mem_cons_self)⟩,
    hput, request_put, List.mem_cons_self, hreturned⟩)

end Late

/-! ### A body for the root -/

namespace Outside

open Echo

def pick : MethodRef := ⟨main, "pick", [], ClassInfo.rootName⟩

def pickDraft : Draft := ((Draft.start pick false).newObject apple 1).2.ret (some 2) 2

/-- Calls the entry point, but without a receiver, so that the call has no target. -/
def rootDraft : Draft :=
  ((Draft.start CallGraph.rootMethod true).null.2.invoke pick .virtual [1] 3).2

def plan : Plan := ⟨.empty ⟨"shop"⟩, (BodyStore.ofDrafts [pickDraft, rootDraft]).provider, 0⟩

theorem drafted : ∀ m b, plan.provider.request m = .ok (some b) → b.Drafted := by
  intro m b h
  refine BodyStore.drafted_of_request ?_ h
  intro d hd
  simp only [List.mem_cons, List.not_mem_nil, or_false] at hd
  rcases hd with rfl | rfl
  · exact ⟨_, _, (Draft.Written.start.newObject _ _).ret _ _⟩
  · exact ⟨_, _, Draft.Written.start.null.invoke _ _ _ _⟩

def call : CallSite := ⟨0, pick, .virtual⟩

def picked : Instance := Instance.allocated pick ⟨0, apple⟩ CallString.empty

theorem built : ∃ g, (build plan [pick] .unlimited).result = .ok g ∧
    ⟨0, call, 1⟩ ∈ g.graph.edges ∧ g.graph.node? 0 = some CallGraph.rootNode ∧
    g.graph.node? 1 = some ⟨pick, .everywhere⟩ ∧ picked ∈ g.pointsTo.get 1 2 ∧
    picked ∉ g.pointsTo.get 0 2 :=
  exists_built_of_any 40 (by decide +kernel)

theorem request_root :
    plan.provider.request CallGraph.rootMethod = .ok (some rootDraft.body) := by rfl

theorem request_pick : plan.provider.request pick = .ok (some pickDraft.body) := by rfl

/-- Neither a parameter is returned nor a special call made, and still an object is missing:
    what the entry point returns does not come back to the root. -/
theorem not_returnClosed_root :
    (∀ m b, plan.provider.request m = .ok (some b) → b.Drafted) ∧
    (∀ w ∈ pickDraft.body.returnValues, w ∉ pickDraft.body.params) ∧ call.kind ≠ .special ∧
    ∃ g, (build plan [pick] .unlimited).result = .ok g ∧ ¬ ReturnClosed plan g := by
  refine ⟨drafted, by decide, by decide, ?_⟩
  obtain ⟨g, hg, hedge, hroot, hpick, hreturned, hmissing⟩ := built
  refine ⟨g, hg, ?_⟩
  intro hclosed
  exact hmissing (hclosed ⟨0, call, 1⟩ 2 [1] _ _ 2 picked ⟨hedge,
    ⟨_, _, 0, 3, hroot, request_root, List.mem_cons_self⟩, hpick, request_pick,
    List.mem_cons_self, hreturned⟩)

end Outside

end Construction
end StreamVerdict
