/-
  Caches leave no trace in verdicts.

  Whatever analyses came before on the same caches, of whatever projects, how they ended and how
  often the caches were cleared in between: what is kept is what the sources say.  A stage of an
  analysis answers by the sources alone if the caches are so and nothing cancels it, and it
  leaves the caches so, even if it is cancelled.  The sources may be any that tell the scopes of
  projects and make bodies in view of their hierarchies.
-/
import StreamVerdict.Proofs.Cache.Faithful
import StreamVerdict.Proofs.Verdict.Consistency

namespace StreamVerdict
namespace Analysis

section

variable {σ : Type} {ctx : Context} {site : CreationSite} {l : Located} {c c' : Caches}

/-! ### Stages -/

/-- The creation is found by what the sources say. -/
theorem locate_spec (hc : c.Faithful ctx.scopes ctx.factory) (site : CreationSite) :
    (locate ctx site c).2.Faithful ctx.scopes ctx.factory ∧
    (locate ctx site c).1 = (do
      let h ← (ctx.scopes.hierarchy site.project).mapError HierarchyError.toAnalysisError
      let b ← (ctx.factory.provider h).bodyOf site.enclosing.methodRef
      let creation ← Creation.find b site
      return ⟨h, b, creation⟩) := by
  obtain ⟨hanswer, hc₁⟩ := hc.hierarchyFrom site.project
  rw [locate]
  generalize c.hierarchyFrom ctx.scopes.hierarchy site.project = r at hanswer hc₁ ⊢
  obtain ⟨e | h, c₁⟩ := r
  · rw [← hanswer]
    exact ⟨hc₁, rfl⟩
  · have hh : ctx.scopes.hierarchy site.project = .ok h := hanswer.symm
    obtain ⟨hbody, hc₂⟩ := hc₁.bodyFrom hh site.enclosing.methodRef
    rw [hh]
    simp only [Except.mapError, bind, Except.bind]
    rw [← hbody]
    clear hbody
    generalize c₁.bodyFrom (ctx.factory.make h) site.project site.enclosing.methodRef = r at hc₂ ⊢
    obtain ⟨e | b, c₂⟩ := r
    · exact ⟨hc₂, rfl⟩
    · cases hfind : Creation.find b site with
      | error e =>
          simp only [hfind]
          exact ⟨hc₂, trivial⟩
      | ok creation =>
          simp only [hfind]
          exact ⟨hc₂, rfl⟩

/-- A creation that is found belongs to the hierarchy of its project. -/
theorem hierarchy_of_locate (hc : c.Faithful ctx.scopes ctx.factory)
    (h : (locate ctx site c).1 = .ok l) : ctx.scopes.hierarchy site.project = .ok l.hierarchy := by
  rw [(locate_spec hc site).2, bind_eq_ok] at h
  obtain ⟨hierarchy, hmodel, hrest⟩ := h
  simp only [bind_eq_ok] at hrest
  obtain ⟨b, -, creation, -, hl⟩ := hrest
  cases hl
  rcases hanswer : ctx.scopes.hierarchy site.project with e | found
  · rw [hanswer] at hmodel
    cases hmodel
  · rw [hanswer] at hmodel
    cases hmodel
    rfl

theorem lifecycle_caches (hc : c.Faithful ctx.scopes ctx.factory)
    (hl : ctx.scopes.hierarchy site.project = .ok l.hierarchy) (m : Monitor) :
    (lifecycle ctx site l c m).2.1.Faithful ctx.scopes ctx.factory := by
  have hgraph := (hc.graph hl [site.enclosing.methodRef] ctx.settings.contextDepth.toNat m).1
  rw [lifecycle]
  split
  · simp only [followLife]
    split
    · exact hgraph
    · split
      · exact hgraph
      · exact hgraph
  · exact hc

/-- Without cancellation the life of a stream depends on the sources alone. -/
theorem lifecycle_congr (hc : c.Faithful ctx.scopes ctx.factory)
    (hc' : c'.Faithful ctx.scopes ctx.factory)
    (hl : ctx.scopes.hierarchy site.project = .ok l.hierarchy) {m m' : Monitor}
    (hm : m.patience = none) (hm' : m'.patience = none) :
    (lifecycle ctx site l c m).1 = (lifecycle ctx site l c' m').1 := by
  obtain ⟨hpatience, hresult⟩ :=
    (hc.graph hl [site.enclosing.methodRef] ctx.settings.contextDepth.toNat m).2 hm
  obtain ⟨hpatience', hresult'⟩ :=
    (hc'.graph hl [site.enclosing.methodRef] ctx.settings.contextDepth.toNat m').2 hm'
  have hgraph : (graphFor ctx site l c m).result = (graphFor ctx site l c' m').result :=
    hresult.trans hresult'.symm
  have hsolution : ∀ g, solutionFor ctx site l g (graphFor ctx site l c m).monitor =
      solutionFor ctx site l g (graphFor ctx site l c' m').monitor :=
    fun g => Typestate.solve_unmonitored _ g _ _ _ hpatience hpatience'
  rw [lifecycle, lifecycle]
  split
  · rw [followLife_fst, followLife_fst, hgraph]
    simp only [hsolution]
  · rfl

/-! ### Analyses -/

/-- An analysis, however it ends, leaves caches that hold what the sources say. -/
theorem analyze_caches (ctx : Context) (site : CreationSite) (r : Resources σ)
    (hr : r.caches.Faithful ctx.scopes ctx.factory) :
    (analyze ctx site r).2.caches.Faithful ctx.scopes ctx.factory := by
  have hlocated := (locate_spec hr site).1
  have hhierarchy : ∀ l, (locate ctx site r.caches).1 = .ok l →
      ctx.scopes.hierarchy site.project = .ok l.hierarchy := fun l => hierarchy_of_locate hr
  rw [analyze]
  rcases ctx.settings.error? with _ | e
  · generalize locate ctx site r.caches = found at hlocated hhierarchy ⊢
    obtain ⟨e | l, c₁⟩ := found
    · exact hlocated
    · simp only [analyzeLocated]
      split
      · exact hlocated
      · split
        · exact hlocated
        · -- The last stage is the only one behind the search that touches the caches.
          have hlast := lifecycle_caches hlocated (hhierarchy l rfl) r.monitor
          split
          · exact hlast
          · exact hlast
  · exact hr

/-- Without cancellation a verdict depends on the sources and the answers to probes alone. -/
theorem analyze_congr (hc : c.Faithful ctx.scopes ctx.factory)
    (hc' : c'.Faithful ctx.scopes ctx.factory) (probing : Option (SourceOrder.Probing σ))
    {m m' : Monitor} (hm : m.patience = none) (hm' : m'.patience = none) :
    (analyze ctx site ⟨c, probing, m⟩).1 = (analyze ctx site ⟨c', probing, m'⟩).1 := by
  obtain ⟨hlocated, hfound⟩ := locate_spec hc site
  obtain ⟨hlocated', hfound'⟩ := locate_spec hc' site
  have hsame := hfound.trans hfound'.symm
  rw [analyze_fst, analyze_fst]
  simp only [← hsame]
  rcases hl : (locate ctx site c).1 with e | l
  · rfl
  · have hlife := lifecycle_congr hlocated hlocated' (hierarchy_of_locate hc hl) hm hm'
    simp only [bind, Except.bind, hlife]

end

/-- Caches after any analyses with the same sources, of any projects, with any settings, answers
    to probes and monitors, and after any clearing. -/
inductive Used (scopes : ScopeSource) (factory : BodyFactory) : Caches → Prop where
  | fresh : Used scopes factory Caches.empty
  | cleared {c : Caches} (hc : Used scopes factory c) : Used scopes factory c.clear
  | analyzed {σ : Type} {c : Caches} (hc : Used scopes factory c) (settings : Settings)
      (site : CreationSite) (probing : Option (SourceOrder.Probing σ)) (monitor : Monitor) :
      Used scopes factory (analyze ⟨scopes, factory, settings⟩ site ⟨c, probing, monitor⟩).2.caches

theorem Used.faithful {scopes : ScopeSource} {factory : BodyFactory} {c : Caches}
    (h : Used scopes factory c) : c.Faithful scopes factory := by
  induction h with
  | fresh => exact Caches.Faithful.empty
  | cleared _ _ => exact Caches.Faithful.clear _
  | analyzed _ settings site probing monitor ih =>
      exact analyze_caches ⟨scopes, factory, settings⟩ site ⟨_, probing, monitor⟩ ih

/-- Whatever happened to the caches before, an analysis that is not cancelled gives the verdict
    or the error that it gives with fresh caches.  The sources may be any, as long as a body that
    is made for a method is one of that method. -/
theorem analyze_used_eq_fresh {σ : Type} (ctx : Context) (c : Caches)
    (hused : Used ctx.scopes ctx.factory c) (site : CreationSite)
    (probing : Option (SourceOrder.Probing σ)) (monitor : Monitor)
    (hmonitor : monitor.patience = none) :
    (analyze ctx site ⟨c, probing, monitor⟩).1 =
      (analyze ctx site ⟨Caches.empty, probing, monitor⟩).1 :=
  analyze_congr hused.faithful Caches.Faithful.empty probing hmonitor hmonitor

namespace Listing

/-- The project of the list, and another with the same classes but the stream. -/
def projects : ProjectModel :=
  model.insert ⟨⟨"mall"⟩, [ClassInfo.root .primordial, list], []⟩

/-- The main method where there are no streams. -/
def idleBody : Body := ⟨main.methodRef, true, [], [.ret 0 none 1], [], .empty⟩

/-- The main method by what is in the class hierarchy, and all else from the store. -/
def makeBody (h : Hierarchy) (m : MethodRef) : Except BodyError (Option Body) :=
  if m = main.methodRef ∧ h.contains stream.name = false then .ok (some idleBody)
  else store.request m

theorem makeBody_own (h : Hierarchy) (m : MethodRef) (b : Body)
    (hb : makeBody h m = .ok (some b)) : b.method = m := by
  rw [makeBody] at hb
  split at hb
  case isTrue hidle =>
    cases hb
    exact hidle.1.symm
  case isFalse => exact BodyStore.method_of_request hb

def shared : Context := ⟨projects.scope, ⟨makeBody, makeBody_own⟩, Settings.ofPreset .fast⟩

/-- Left behind by an analysis in the other project, which finds no creation there. -/
def visited : Caches :=
  (analyze shared { site with project := ⟨"mall"⟩ } fresh).2.caches

/-- Left behind by an analysis with longer call strings that was cancelled at its second turn. -/
def worn : Caches :=
  (analyze ⟨shared.scopes, shared.factory, Settings.ofPreset .precise⟩ site
    { fresh with caches := visited, monitor := ⟨some 1, "stop", 0⟩ }).2.caches

/-- The earlier analyses left two bodies of the main method behind, one for each project, and the
    next one comes to its verdict all the same. -/
theorem analyze_used_eq_fresh_worn :
    Used shared.scopes shared.factory worn ∧
    worn.bodies.lookup (⟨"mall"⟩, main.methodRef) = some idleBody ∧
    worn.bodies.lookup (⟨"shop"⟩, main.methodRef) = some mainBody ∧
    Monitor.unlimited.patience = none ∧
    (analyze shared site { fresh with caches := worn }).1 = (analyze shared site fresh).1 ∧
    ∃ v, (analyze shared site { fresh with caches := worn }).1 = .ok v := by
  have hvisited : Used shared.scopes shared.factory visited := Used.analyzed Used.fresh _ _ _ _
  have hused : Used shared.scopes shared.factory worn := Used.analyzed hvisited _ _ _ _
  have hsame := analyze_used_eq_fresh shared worn hused site fresh.probing .unlimited rfl
  obtain ⟨v, hv, -⟩ : ∃ v, (analyze shared site fresh).1 = .ok v ∧
      Protocol.created ∈ v.lifecycle := exists_analyzed_of_any 40 (by decide +kernel)
  exact ⟨hused, by decide +kernel, by decide +kernel, rfl, hsame, v, hsame.trans hv⟩

end Listing

end Analysis
end StreamVerdict
