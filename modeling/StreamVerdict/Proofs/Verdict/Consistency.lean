/-
  The parts of a verdict agree with each other.

  A verdict has at most two findings: one that tells why the order of the source is not known,
  and behind it one that tells why the objects of the stream could not be matched with its
  creation.  An order that is found is never the unknown one, whatever the probes answer.  So
  the order, the findings and the question whether the stream may be changed all say the same.
-/
import StreamVerdict.Proofs.CallGraph.Determinacy
import StreamVerdict.Proofs.Ordering.Agreement
import StreamVerdict.Proofs.Typestate.LeastSolution
import StreamVerdict.Verdict.Analysis

namespace StreamVerdict

/-! ### Findings -/

namespace Finding

/-- The finding tells why an order is not known. -/
def IsOfOrder (f : Finding) : Prop := f.code ∈ [1, 2, 3, 4]

/-- The finding tells why objects could not be matched. -/
def IsOfMatch (f : Finding) : Prop := f.code = 5

theorem ofOrdering_spec (site : CreationSite) (e : OrderingError) :
    (ofOrdering site e).IsOfOrder ∧ (ofOrdering site e).severity = .error := by
  cases e <;> simp [IsOfOrder, ofOrdering, code, error, FindingKind.code]

theorem ofMatch_spec (site : CreationSite) (e : MatchError) :
    (ofMatch site e).IsOfMatch ∧ (ofMatch site e).severity = .error := by
  cases e
  exact ⟨rfl, rfl⟩

theorem IsOfMatch.not_isOfOrder {f : Finding} (h : f.IsOfMatch) : ¬ f.IsOfOrder := by
  rw [IsOfOrder, show f.code = 5 from h]
  decide

theorem IsOfOrder.code_ne {f : Finding} (h : f.IsOfOrder) : f.code ≠ 6 := by
  intro hcode
  rw [IsOfOrder, hcode] at h
  exact absurd h (by decide)

theorem IsOfMatch.code_ne {f : Finding} (h : f.IsOfMatch) : f.code ≠ 6 := by
  rw [show f.code = 5 from h]
  decide

end Finding

theorem Severity.le_worse {a b c : Severity} : a ≤ b.worse c ↔ a ≤ b ∨ a ≤ c := by
  show a.rank ≤ (if b.rank ≤ c.rank then c else b).rank ↔ a.rank ≤ b.rank ∨ a.rank ≤ c.rank
  split
  · omega
  · omega

/-- There is an error just if one of the findings is one. -/
theorem Status.hasError_iff {s : Status} :
    s.hasError = true ↔ ∃ f ∈ s.findings, Severity.error ≤ f.severity := by
  have hfold : ∀ (l : List Finding) (worst : Severity),
      Severity.error ≤ l.foldl (fun worst f => worst.worse f.severity) worst ↔
        Severity.error ≤ worst ∨ ∃ f ∈ l, Severity.error ≤ f.severity := by
    intro l
    induction l with
    | nil => simp
    | cons f l ih =>
        intro worst
        rw [List.foldl_cons, ih, Severity.le_worse, or_assoc]
        simp
  have hok : ¬ Severity.error ≤ Severity.ok := by decide
  rw [hasError, decide_eq_true_eq, severity, hfold]
  exact or_iff_right hok

/-- Where all findings are errors, there is no error just if there is no finding. -/
theorem Status.hasError_eq_false_iff {s : Status} (h : ∀ f ∈ s.findings, f.severity = .error) :
    s.hasError = false ↔ s.findings = [] := by
  rw [← Bool.not_eq_true, hasError_iff, List.eq_nil_iff_forall_not_mem]
  constructor
  · intro hnone f hf
    refine hnone ⟨f, hf, ?_⟩
    rw [h f hf]
    decide
  · rintro hnone ⟨f, hf, -⟩
    exact hnone f hf

/-- Errors in their order: at most one about the order, and then at most one about the match. -/
structure Arranged (fs : List Finding) (first last : Option Finding) : Prop where
  eq : fs = first.toList ++ last.toList
  first : ∀ f ∈ first, f.IsOfOrder ∧ f.severity = .error
  last : ∀ f ∈ last, f.IsOfMatch ∧ f.severity = .error

namespace Arranged

variable {fs : List Finding} {first last : Option Finding} {f : Finding}

theorem mem_iff (h : Arranged fs first last) : f ∈ fs ↔ f ∈ first ∨ f ∈ last := by
  simp only [h.eq, List.mem_append, Option.mem_toList, Option.mem_def]

theorem mem_and_isOfOrder_iff (h : Arranged fs first last) :
    f ∈ fs ∧ f.IsOfOrder ↔ f ∈ first := by
  rw [h.mem_iff]
  constructor
  · rintro ⟨hf | hf, hof⟩
    · exact hf
    · exact absurd hof (h.last f hf).1.not_isOfOrder
  · intro hf
    exact ⟨Or.inl hf, (h.first f hf).1⟩

theorem mem_and_isOfMatch_iff (h : Arranged fs first last) :
    f ∈ fs ∧ f.IsOfMatch ↔ f ∈ last := by
  rw [h.mem_iff]
  constructor
  · rintro ⟨hf | hf, hof⟩
    · exact absurd (h.first f hf).1 hof.not_isOfOrder
    · exact hf
  · intro hf
    exact ⟨Or.inr hf, (h.last f hf).1⟩

theorem severe (h : Arranged fs first last) (hf : f ∈ fs) :
    f.code ≠ 6 ∧ f.severity = .error := by
  rcases h.mem_iff.mp hf with hf | hf
  · exact ⟨(h.first f hf).1.code_ne, (h.first f hf).2⟩
  · exact ⟨(h.last f hf).1.code_ne, (h.last f hf).2⟩

end Arranged

/-! ### The states of tracked objects -/

namespace Typestate

theorem Settled.recorded_eq {p : Problem} {s s' : Progress} (h : Settled p s)
    (h' : Settled p s') : s.recorded p = s'.recorded p := by
  obtain ⟨hentry, hexit⟩ := h.leastSolution.unique h'.leastSolution
  ext q
  rw [h.mem_recorded_iff, h'.mem_recorded_iff, hentry, hexit]

/-- The states of an entry are the states of its object. -/
theorem mem_states_iff_statesOf {limits : SolverLimits} {g : BuiltGraph} {h : Hierarchy}
    {p : Protocol} {tracked : TypeName} {monitor : Monitor} {S : Solution}
    (hsolve : (solve limits g h p tracked monitor).2 = .ok S) {t : Tracked} (ht : t ∈ S.tracked)
    (q : State) : q ∈ t.states ↔ q ∈ S.statesOf t.object := by
  have hall := (solve_spec hsolve).1
  obtain ⟨u, hu, hsame, hstates⟩ := exists_statesOf_eq ht
  obtain ⟨s, hs, hrecorded⟩ := hall t ht
  obtain ⟨s', hs', hrecorded'⟩ := hall u hu
  rw [hsame] at hs' hrecorded'
  have hmembers : t.states.members = u.states.members := by
    rw [hrecorded, hrecorded', hs.recorded_eq hs']
  rw [hstates]
  show q ∈ t.states.members ↔ q ∈ u.states.members
  rw [hmembers]

end Typestate

/-! ### The parts of a verdict -/

namespace Analysis

section

variable {σ : Type} {ctx : Context} {site : CreationSite}

/-- The answer of an analysis is that of its stages, one after the other. -/
theorem analyze_fst (ctx : Context) (site : CreationSite) (r : Resources σ) :
    (analyze ctx site r).1 =
      match ctx.settings.error? with
      | some e => .error e.toAnalysisError
      | none => do
        let l ← (locate ctx site r.caches).1
        let types ← possibleTypes site l
        let order ← settleOrder site (inferOrder ctx site types r.probing).1
        let life ← (lifecycle ctx site l (locate ctx site r.caches).2 r.monitor).1
        return {
          creation := site
          executionMode := ExecutionMode.ofCreation site.method
          ordering := order.1
          status := ⟨order.2 ++ life.2⟩
          possibleTypes := types
          lifecycle := life.1 } := by
  rw [analyze]
  rcases ctx.settings.error? with _ | e
  · rcases locate ctx site r.caches with ⟨e | l, c⟩
    · rfl
    · simp only [analyzeLocated, bind, Except.bind, pure, Except.pure]
      rcases possibleTypes site l with e | types
      · simp only
      · rcases horder : settleOrder site (inferOrder ctx site types r.probing).1 with e | order
        · simp only [horder]
        · simp only [horder]
          rcases (lifecycle ctx site l c r.monitor).1 with e | life
          · rfl
          · rfl
  · rfl

theorem inferOrder_ne_unknown {types : OrdSet StaticType}
    {probing : Option (SourceOrder.Probing σ)} {o : SourceOrder}
    (h : (inferOrder ctx site types probing).1 = .ok o) : o ≠ .unknown := by
  cases probing with
  | none => exact SourceOrder.infer_ne_unknown h
  | some p =>
      rw [inferOrder] at h
      split at h
      · exact SourceOrder.infer_ne_unknown h
      · exact SourceOrder.infer_ne_unknown h

/-- An order that is known has no finding, and the unknown one has a single finding. -/
theorem settleOrder_inferOrder {types : OrdSet StaticType}
    {probing : Option (SourceOrder.Probing σ)} {order : SourceOrder × List Finding}
    (h : settleOrder site (inferOrder ctx site types probing).1 = .ok order) :
    (order.1 ≠ .unknown ∧ order.2 = []) ∨
      (order.1 = .unknown ∧ ∃ e, order.2 = [Finding.ofOrdering site e]) := by
  rcases hinfer : (inferOrder ctx site types probing).1 with (e | e) | o
  · rw [hinfer] at h
    cases h
    exact Or.inr ⟨rfl, e, rfl⟩
  · rw [hinfer] at h
    cases h
  · rw [hinfer] at h
    cases h
    exact Or.inl ⟨inferOrder_ne_unknown hinfer, rfl⟩

theorem matchObjects_findings (site : CreationSite) (creation : Creation) (g : BuiltGraph)
    (S : Solution) :
    (matchObjects site creation g S).2 = [] ∨
      ∃ e, (matchObjects site creation g S).2 = [Finding.ofMatch site e] := by
  simp only [matchObjects]
  rcases S.tracked.findSome? _ with _ | e
  · exact Or.inl rfl
  · exact Or.inr ⟨e, rfl⟩

theorem mem_matchObjects {creation : Creation} {g : BuiltGraph} {S : Solution} {q : State} :
    q ∈ (matchObjects site creation g S).1 ↔
      ∃ t ∈ S.tracked, g.createdThrough g.depth t.object creation.callSite
        site.enclosing.methodRef = .ok true ∧ q ∈ t.states := by
  simp only [matchObjects, OrdSet.mem_ofList, List.mem_flatMap, List.mem_filter, and_assoc]
  refine exists_congr fun t => and_congr_right fun _ => and_congr_left fun _ => ?_
  rcases g.createdThrough g.depth t.object creation.callSite site.enclosing.methodRef with e | b
  · simp
  · simp

/-- The outcome of the request for the call graph of the enclosing method. -/
def graphFor (ctx : Context) (site : CreationSite) (l : Located) (c : Caches) (m : Monitor) :
    Construction.Outcome :=
  (c.graph (ctx.factory.provider l.hierarchy) l.hierarchy site.project
    [site.enclosing.methodRef] ctx.settings.contextDepth.toNat m).1

/-- What the solve of the result type in a call graph comes to. -/
def solutionFor (ctx : Context) (site : CreationSite) (l : Located) (g : BuiltGraph)
    (m : Monitor) : Except SolverError Solution :=
  (Typestate.solve ctx.settings.typestate g l.hierarchy Protocol.eventTracking
    site.resultType.typeName m).2

theorem followLife_fst (ctx : Context) (site : CreationSite) (l : Located) (c : Caches)
    (m : Monitor) :
    (followLife ctx site l c m).1 =
      match (graphFor ctx site l c m).result with
      | .error e => .error e.toAnalysisError
      | .ok g =>
        match solutionFor ctx site l g (graphFor ctx site l c m).monitor with
        | .error e => .error e.toAnalysisError
        | .ok S => .ok (matchObjects site l.creation g S) := by
  simp only [followLife, graphFor, solutionFor]
  rcases (c.graph (ctx.factory.provider l.hierarchy) l.hierarchy site.project
    [site.enclosing.methodRef] ctx.settings.contextDepth.toNat m).1 with ⟨e | g, m', requests⟩
  · rfl
  · rcases hsolve : Typestate.solve ctx.settings.typestate g l.hierarchy Protocol.eventTracking
      site.resultType.typeName m' with ⟨m'', e | S⟩
    · simp only [hsolve]
    · simp only [hsolve]

/-- A life that is followed is that of the matched objects, in the solution for the call graph. -/
theorem followLife_eq_ok {l : Located} {c : Caches} {m : Monitor}
    {life : OrdSet State × List Finding} (h : (followLife ctx site l c m).1 = .ok life) :
    ∃ g S, (graphFor ctx site l c m).result = .ok g ∧
      solutionFor ctx site l g (graphFor ctx site l c m).monitor = .ok S ∧
      life = matchObjects site l.creation g S := by
  rw [followLife_fst] at h
  rcases hresult : (graphFor ctx site l c m).result with e | g
  · simp [hresult] at h
  · rcases hsolve : solutionFor ctx site l g (graphFor ctx site l c m).monitor with e | S
    · simp [hresult, hsolve] at h
    · simp only [hresult, hsolve, Except.ok.injEq] at h
      exact ⟨g, S, rfl, hsolve, h.symm⟩

theorem lifecycle_findings {l : Located} {c : Caches} {m : Monitor}
    {life : OrdSet State × List Finding} (h : (lifecycle ctx site l c m).1 = .ok life) :
    life.2 = [] ∨ ctx.settings.runTypestate = true ∧ ∃ e, life.2 = [Finding.ofMatch site e] := by
  rw [lifecycle] at h
  by_cases hrun : ctx.settings.runTypestate = true
  · rw [if_pos hrun] at h
    obtain ⟨g, S, -, -, rfl⟩ := followLife_eq_ok h
    rcases matchObjects_findings site l.creation g S with hnone | hone
    · exact Or.inl hnone
    · exact Or.inr ⟨hrun, hone⟩
  · rw [if_neg hrun] at h
    cases h
    exact Or.inl rfl

/-- The findings of a verdict: one about the order if that is unknown, and then one about the
    match if there is one, which takes that the life was followed. -/
theorem exists_arranged {types : OrdSet StaticType}
    {probing : Option (SourceOrder.Probing σ)} {l : Located} {c : Caches} {m : Monitor}
    {order : SourceOrder × List Finding} {life : OrdSet State × List Finding}
    (horder : settleOrder site (inferOrder ctx site types probing).1 = .ok order)
    (hlife : (lifecycle ctx site l c m).1 = .ok life) :
    ∃ first last, Arranged (order.2 ++ life.2) first last ∧
      (order.1 = .unknown ↔ first.isSome = true) ∧
      (last.isSome = true → ctx.settings.runTypestate = true) := by
  have hlast : ∃ last : Option Finding, life.2 = last.toList ∧
      (∀ f ∈ last, f.IsOfMatch ∧ f.severity = .error) ∧
      (last.isSome = true → ctx.settings.runTypestate = true) := by
    rcases lifecycle_findings hlife with hnone | ⟨hrun, e, hone⟩
    · exact ⟨none, hnone, by rintro f ⟨⟩, fun hsome => by cases hsome⟩
    · refine ⟨some (Finding.ofMatch site e), hone, ?_, fun _ => hrun⟩
      rintro f ⟨⟩
      exact Finding.ofMatch_spec site e
  obtain ⟨last, hmore, hlast, hrun⟩ := hlast
  rw [hmore]
  rcases settleOrder_inferOrder horder with ⟨hknown, hnone⟩ | ⟨hunknown, e, hone⟩
  · refine ⟨none, last, ⟨by rw [hnone]; rfl, by rintro f ⟨⟩, hlast⟩, by simp [hknown], hrun⟩
  · refine ⟨some (Finding.ofOrdering site e), last, ⟨by rw [hone]; rfl, ?_, hlast⟩,
      by simp [hunknown], hrun⟩
    rintro f ⟨⟩
    exact Finding.ofOrdering_spec site e

end

/-! ### Monitors -/

section

variable {σ : Type} {ctx : Context} {site : CreationSite} {l : Located} {c : Caches}
  {m free : Monitor}

theorem graphFor_of_ok {g : BuiltGraph} (h : (graphFor ctx site l c m).result = .ok g)
    (hfree : free.patience = none) :
    (graphFor ctx site l c free).result = .ok g ∧
      (graphFor ctx site l c free).monitor.patience = none := by
  rw [graphFor, Caches.graph] at h ⊢
  exact GraphLibrary.request_of_ok h hfree

/-- The life of a stream under some monitor is its life under every other that does not
    cancel. -/
theorem lifecycle_of_ok {life : OrdSet State × List Finding}
    (h : (lifecycle ctx site l c m).1 = .ok life) (hfree : free.patience = none) :
    (lifecycle ctx site l c free).1 = .ok life := by
  rw [lifecycle] at h ⊢
  by_cases hrun : ctx.settings.runTypestate = true
  · rw [if_pos hrun] at h ⊢
    obtain ⟨g, S, hg, hS, rfl⟩ := followLife_eq_ok h
    obtain ⟨hg', hpatience⟩ := graphFor_of_ok hg hfree
    have hS' := Typestate.solve_result_of_ok hS hpatience
    rw [followLife_fst, hg']
    simp only [solutionFor, hS']
  · rw [if_neg hrun] at h ⊢
    exact h

/-- A verdict under some monitor is the verdict under every other that does not cancel. -/
theorem analyze_of_ok {probing : Option (SourceOrder.Probing σ)} {v : Verdict}
    (h : (analyze ctx site ⟨c, probing, m⟩).1 = .ok v) (hfree : free.patience = none) :
    (analyze ctx site ⟨c, probing, free⟩).1 = .ok v := by
  rw [analyze_fst] at h ⊢
  rcases herror : ctx.settings.error? with _ | e
  · simp only [herror, bind_eq_ok] at h ⊢
    obtain ⟨l, hl, types, htypes, order, horder, life, hlife, hv⟩ := h
    exact ⟨l, hl, types, htypes, order, horder, life, lifecycle_of_ok hlife hfree, hv⟩
  · simp [herror] at h

/-- A verdict with patience for some nodes is the verdict without any limit. -/
theorem exists_analyzed_of_any {probing : Option (SourceOrder.Probing σ)} {P : Verdict → Prop}
    [DecidablePred P] (k : Nat)
    (h : ((analyze ctx site ⟨c, probing, { patience := some k }⟩).1.toOption.any fun v =>
      decide (P v)) = true) :
    ∃ v, (analyze ctx site ⟨c, probing, .unlimited⟩).1 = .ok v ∧ P v := by
  obtain ⟨v, hv, hP⟩ := exists_ok_of_any h
  exact ⟨v, analyze_of_ok hv rfl, hP⟩

end

/-! ### Verdicts -/

/-- Where the creation was found, which call graph and which solution were used, and that the
    states of the life are those of the objects that were created through the creation's call. -/
def FollowsObjects {σ : Type} (ctx : Context) (site : CreationSite) (r : Resources σ)
    (states : OrdSet State) : Prop :=
  ∃ l c g S, locate ctx site r.caches = (.ok l, c) ∧
    (graphFor ctx site l c r.monitor).result = .ok g ∧
    solutionFor ctx site l g (graphFor ctx site l c r.monitor).monitor = .ok S ∧
    ∀ q, q ∈ states ↔ ∃ t ∈ S.tracked,
      g.createdThrough g.depth t.object l.creation.callSite site.enclosing.methodRef = .ok true ∧
        q ∈ S.statesOf t.object

/-- In every verdict the order is unknown just if a finding tells why; that finding comes first
    and there is no other of its kind.  A finding about the match of objects comes last, and
    there is none, nor any state, if the life of the stream is not followed.  All findings are
    errors of these kinds, and so the stream may be changed just if there is no finding.  Its
    states are all the states of the objects that were created through the creation's call. -/
theorem analyze_consistent {σ : Type} (ctx : Context) (site : CreationSite) (r : Resources σ)
    (v : Verdict) (h : (analyze ctx site r).1 = .ok v) :
    (v.ordering = .unknown ↔ ∃ f ∈ v.status.findings, f.IsOfOrder) ∧
    (v.ordering = .unknown → ∃ f rest, v.status.findings = f :: rest ∧ f.IsOfOrder ∧
      ∀ f' ∈ rest, ¬ f'.IsOfOrder) ∧
    (∀ f ∈ v.status.findings, f.IsOfMatch → ctx.settings.runTypestate = true ∧
      ∃ earlier, v.status.findings = earlier ++ [f] ∧ ∀ f' ∈ earlier, ¬ f'.IsOfMatch) ∧
    (∀ f ∈ v.status.findings, f.code ≠ 6 ∧ f.severity = .error) ∧
    (v.isTransformable = true ↔ v.status.findings = []) ∧
    (ctx.settings.runTypestate = false → v.lifecycle = ∅) ∧
    (ctx.settings.runTypestate = true → FollowsObjects ctx site r v.lifecycle) := by
  rw [analyze_fst] at h
  rcases herror : ctx.settings.error? with _ | e
  · simp only [herror, bind_eq_ok] at h
    obtain ⟨l, hl, types, -, order, horder, life, hlife, hv⟩ := h
    cases hv
    obtain ⟨first, last, harranged, hunknown, hmatch⟩ := exists_arranged horder hlife
    refine ⟨?_, ?_, ?_, fun f => harranged.severe, ?_, ?_, ?_⟩
    · rw [hunknown, Option.isSome_iff_exists]
      exact exists_congr fun f => harranged.mem_and_isOfOrder_iff.symm
    · intro ho
      obtain ⟨f, rfl⟩ := Option.isSome_iff_exists.mp (hunknown.mp ho)
      refine ⟨f, last.toList, harranged.eq, (harranged.first f rfl).1, ?_⟩
      intro f' hf'
      exact (harranged.last f' (Option.mem_toList.mp hf')).1.not_isOfOrder
    · intro f hf hof
      obtain rfl := harranged.mem_and_isOfMatch_iff.mp ⟨hf, hof⟩
      refine ⟨hmatch rfl, first.toList, harranged.eq, ?_⟩
      intro f' hf' hof'
      exact hof'.not_isOfOrder (harranged.first f' (Option.mem_toList.mp hf')).1
    · rw [Verdict.isTransformable, Bool.and_eq_true, Bool.not_eq_true',
        Status.hasError_eq_false_iff fun f hf => (harranged.severe hf).2]
      refine and_iff_right_of_imp ?_
      -- Without findings there is none about the order either.
      intro hempty
      rw [harranged.eq, List.append_eq_nil_iff, Option.toList_eq_nil_iff] at hempty
      rw [SourceOrder.isKnown, decide_eq_true_eq, ne_eq, hunknown, hempty.1]
      exact Bool.noConfusion
    · intro hrun
      rw [lifecycle, if_neg (by simp [hrun])] at hlife
      cases hlife
      rfl
    · intro hrun
      rw [lifecycle, if_pos hrun] at hlife
      obtain ⟨g, S, hg, hS, rfl⟩ := followLife_eq_ok hlife
      refine ⟨l, _, g, S, Prod.ext hl rfl, hg, hS, ?_⟩
      intro q
      rw [mem_matchObjects]
      refine exists_congr fun t => and_congr_right fun ht => and_congr_right fun _ => ?_
      exact Typestate.mem_states_iff_statesOf hS ht q
  · simp [herror] at h

/-! ### The stream of a list -/

namespace Listing

def stream : ClassInfo := ClassInfo.concrete .application "shop.Stream"

def list : ClassInfo :=
  (ClassInfo.concrete .application "shop.List").declare "stream" [] "shop.Stream" false false

def model : ProjectModel := ⟨[⟨⟨"shop"⟩, [ClassInfo.root .primordial, stream, list], []⟩]⟩

def main : MethodBinding := ⟨⟨"shop.Main"⟩, "main", [], ⟨"void"⟩, true, .application⟩

def streamOf : MethodBinding := ⟨⟨"shop.List"⟩, "stream", [], ⟨"shop.Stream"⟩, false, .application⟩

/-- Makes a list and asks it for its stream. -/
def mainBody : Body :=
  ⟨main.methodRef, true, [],
    [.new 0 1 ⟨0, list.typeRef⟩ 1, .invoke 1 (some 2) [1] ⟨1, streamOf.methodRef, .virtual⟩ 2,
      .ret 2 none 3],
    [], ⟨[(1, .instruction 0), (2, .instruction 1)], 2, by decide⟩⟩

def streamBody : Body :=
  ⟨streamOf.methodRef, false, [1], [.new 0 2 ⟨0, stream.typeRef⟩ 5, .ret 1 (some 2) 6], [],
    ⟨[(1, .param 0 list.name), (2, .instruction 0)], 2, by decide⟩⟩

def store : BodyStore := ⟨[.body mainBody, .body streamBody]⟩

def site : CreationSite :=
  ⟨⟨"shop"⟩, "Main.java", "list.stream()", streamOf, some ⟨"shop.List"⟩, ⟨"shop.Stream"⟩, 2,
    Span.onLine 2 4 17, ⟨main, Span.onLine 1 0 40⟩⟩

def ctx : Context := ⟨model.scope, store.factory, Settings.ofPreset .fast⟩

/-- No caches yet, and no session. -/
def fresh : Resources Session := ⟨Caches.empty, none, .unlimited⟩

theorem analyzed : ∃ v, (analyze ctx site fresh).1 = .ok v ∧
    v.ordering = .unknown ∧ Protocol.created ∈ v.lifecycle :=
  exists_analyzed_of_any 40 (by decide +kernel)

/-- Without a session the order stays unknown, and the stream that the list hands out is found
    to be created. -/
theorem analyze_consistent_listing :
    ∃ v, (analyze ctx site fresh).1 = .ok v ∧
      (∃ f rest, v.status.findings = f :: rest ∧ f.IsOfOrder ∧ ∀ f' ∈ rest, ¬ f'.IsOfOrder) ∧
      ¬ v.isTransformable = true ∧ Protocol.created ∈ v.lifecycle ∧
      FollowsObjects ctx site fresh v.lifecycle := by
  obtain ⟨v, hv, hunknown, hcreated⟩ := analyzed
  obtain ⟨-, hfirst, -, -, htransformable, -, hfollows⟩ :=
    analyze_consistent ctx site fresh v hv
  obtain ⟨f, rest, hfindings, hof, hrest⟩ := hfirst hunknown
  refine ⟨v, hv, ⟨f, rest, hfindings, hof, hrest⟩, ?_, hcreated, hfollows rfl⟩
  intro htrue
  rw [htransformable.mp htrue] at hfindings
  cases hfindings

end Listing

end Analysis

end StreamVerdict
