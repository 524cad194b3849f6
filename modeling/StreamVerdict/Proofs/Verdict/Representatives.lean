/-
  For which runtime types an order speaks.

  A candidate stands for a type alone or for all of its subtypes, but in either case it is probed
  by a representative of the type itself.  So a known order is that of every candidate's own
  representative, and a candidate of which there can be no representative, such as an interface,
  leaves the order unknown.  Subclasses of a candidate that are no candidates are not asked, and
  may have the other order.
-/
import StreamVerdict.Proofs.Probe.Descriptor
import StreamVerdict.Proofs.Verdict.Consistency

namespace StreamVerdict

/-! ### Candidates and their probes -/

namespace SourceOrder

/-- A type is known of a value, exactly or with its subtypes. -/
theorem mem_known_iff {candidates : OrdSet StaticType} {t : TypeRef} :
    t ∈ known candidates ↔ .point t ∈ candidates ∨ .cone t ∈ candidates := by
  rw [known, List.mem_filterMap]
  constructor
  · rintro ⟨c, hc, ht⟩
    cases c with
    | top => cases ht
    | point u =>
        cases ht
        exact Or.inl hc
    | cone u =>
        cases ht
        exact Or.inr hc
  · rintro (hpoint | hcone)
    · exact ⟨_, hpoint, rfl⟩
    · exact ⟨_, hcone, rfl⟩

end SourceOrder

/-- A probe looks at the name of a type, whatever loads it. -/
theorem Prober.probe_congr {t u : TypeRef} (h : t.name = u.name) (strategies : List Strategy)
    (method : String) (s : Session) : probe strategies method t s = probe strategies method u s := by
  rw [probe, probe, TypeRef.binary, TypeRef.binary, h]

namespace Analysis

open SourceOrder

section

variable {ctx : Context} {site : CreationSite} {types : OrdSet StaticType} {o : SourceOrder}

/-- The order of a stream that is created from an object is found just if there is a session in
    which probes are wanted, there is a known candidate, and the representatives of all known
    candidates have this order. -/
theorem inferOrder_eq_ok_iff (hsite : site.isStatic = false) {session : Option Session} :
    (inferOrder ctx site types (session.map Probing.ofSession)).1 = .ok o ↔
      ∃ s, session = some s ∧ ctx.settings.probe.enabled = true ∧ known types ≠ [] ∧
        ∀ t ∈ known types, ∃ c,
          (Prober.probe Strategy.standard site.method.name t s).1 = .ok c ∧ c.order = o := by
  -- Without a probe the first known candidate fails, and without one nothing is known.
  have hno : ∀ {σ : Type} (s : σ), (infer site types noProbe s).1 ≠ .ok o := by
    intro σ s hok
    rw [infer_of_instance hsite] at hok
    cases hknown : known types with
    | nil =>
        rw [survey_of_known_eq_nil hknown] at hok
        cases hok
    | cons t later =>
        rw [survey_noProbe hknown] at hok
        cases hok
  cases session with
  | none =>
      constructor
      · intro hok
        exact absurd hok (hno _)
      · rintro ⟨s, hs, -⟩
        cases hs
  | some s =>
      rw [Option.map_some, inferOrder]
      by_cases henabled : ctx.settings.probe.enabled = true
      · have hsteady := steady_probe Strategy.standard site.method.name s
        simp only [henabled, if_true, infer_of_instance hsite, Probing.ofSession]
        rw [hsteady.survey_eq_ok_iff ⟨rfl, rfl⟩]
        constructor
        · rintro ⟨hne, hall⟩
          exact ⟨s, rfl, trivial, hne, hall⟩
        · rintro ⟨s', hs', -, hne, hall⟩
          cases hs'
          exact ⟨hne, hall⟩
      · rw [if_neg henabled]
        constructor
        · intro hok
          exact absurd hok (hno _)
        · rintro ⟨-, -, hwanted, -⟩
          exact absurd hwanted henabled

/-- The order of a verdict that is known was found. -/
theorem inferOrder_of_settleOrder {σ : Type} {probing : Option (Probing σ)}
    {order : SourceOrder × List Finding}
    (h : settleOrder site (inferOrder ctx site types probing).1 = .ok order)
    (hknown : order.1 ≠ .unknown) : (inferOrder ctx site types probing).1 = .ok order.1 := by
  rcases hinfer : (inferOrder ctx site types probing).1 with (e | e) | o
  · rw [hinfer] at h
    cases h
    exact absurd rfl hknown
  · rw [hinfer] at h
    cases h
  · rw [hinfer] at h
    cases h
    rfl

end

/-- A known order of a stream that is created from an object is that of every candidate: its type,
    known exactly or with its subtypes, is a class of the catalog of which objects can be made, and
    the probe of the type itself has this order.  So has every class at or below a candidate whose
    own probe succeeds, if it is named as a candidate. -/
theorem analyze_order_of_candidates {ctx : Context} {site : CreationSite} {caches : Caches}
    {session : Option Session} {monitor : Monitor} {v : Verdict}
    (h : (analyze ctx site ⟨caches, session.map Probing.ofSession, monitor⟩).1 = .ok v)
    (hsite : site.isStatic = false) (hknown : v.ordering.isKnown = true) :
    ∃ s l, session = some s ∧ (locate ctx site caches).1 = .ok l ∧
      (∃ t, .point t ∈ v.possibleTypes ∨ .cone t ∈ v.possibleTypes) ∧
      ∀ t, .point t ∈ v.possibleTypes ∨ .cone t ∈ v.possibleTypes →
        (∃ d, s.catalog.descriptor? t.binary = some d ∧ d.IsConstructible) ∧
        (∃ c, (Prober.probe Strategy.standard site.method.name t s).1 = .ok c ∧
          c.order = v.ordering) ∧
        ∀ k ∈ l.hierarchy.classes, k.isConcrete = true →
          l.hierarchy.isSubtype k.name t.name = true →
          (∃ u, (.point u ∈ v.possibleTypes ∨ .cone u ∈ v.possibleTypes) ∧ u.name = k.name) →
          ∀ c, (Prober.probe Strategy.standard site.method.name k.typeRef s).1 = .ok c →
            c.order = v.ordering := by
  rw [analyze_fst] at h
  rcases herror : ctx.settings.error? with _ | e
  · simp only [herror, bind_eq_ok] at h
    obtain ⟨l, hl, types, -, order, horder, life, -, hv⟩ := h
    cases hv
    have hne : order.1 ≠ .unknown := of_decide_eq_true hknown
    obtain ⟨s, hs, -, hsome, hall⟩ :=
      (inferOrder_eq_ok_iff hsite).mp (inferOrder_of_settleOrder horder hne)
    obtain ⟨t, ht⟩ := List.exists_mem_of_ne_nil _ hsome
    refine ⟨s, l, hs, hl, ⟨t, mem_known_iff.mp ht⟩, ?_⟩
    intro t ht
    obtain ⟨c, hc, horder⟩ := hall t (mem_known_iff.mpr ht)
    refine ⟨Prober.exists_descriptor_of_probe hc, ⟨c, hc, horder⟩, ?_⟩
    -- A class that is named as a candidate has the candidate's probe.
    rintro k - - - ⟨u, hu, hname⟩ c' hc'
    obtain ⟨d, hd, hdorder⟩ := hall u (mem_known_iff.mpr hu)
    rw [Prober.probe_congr hname] at hd
    cases hc'.symm.trans hd
    exact hdorder
  · simp [herror] at h

/-! A method that prints a hash set, which may be a linked one. -/

namespace Printing

def stream : ClassInfo := ClassInfo.interface .primordial "java.util.stream.Stream"

def hashSet : ClassInfo :=
  (ClassInfo.concrete .primordial "java.util.HashSet").declare "stream" []
    "java.util.stream.Stream" false false

def linkedHashSet : ClassInfo :=
  { ClassInfo.concrete .primordial "java.util.LinkedHashSet" with superClass := some hashSet.name }

def model : ProjectModel :=
  ⟨[⟨⟨"shop"⟩, [ClassInfo.root .primordial, stream, hashSet, linkedHashSet], []⟩]⟩

def print : MethodBinding :=
  ⟨⟨"shop.Main"⟩, "print", [⟨"java.util.HashSet"⟩], ⟨"void"⟩, true, .application⟩

def streamOf : MethodBinding :=
  ⟨⟨"java.util.HashSet"⟩, "stream", [], ⟨"java.util.stream.Stream"⟩, false, .primordial⟩

/-- Asks its parameter for its stream. -/
def printBody : Body :=
  ⟨print.methodRef, true, [1],
    [.invoke 0 (some 2) [1] ⟨0, streamOf.methodRef, .virtual⟩ 2, .ret 1 none 3],
    [], ⟨[(1, .param 0 hashSet.name), (2, .instruction 0)], 2, by decide⟩⟩

def site : CreationSite :=
  ⟨⟨"shop"⟩, "Main.java", "set.stream()", streamOf, some ⟨"java.util.HashSet"⟩,
    ⟨"java.util.stream.Stream"⟩, 2, Span.onLine 2 4 16, ⟨print, Span.onLine 1 0 40⟩⟩

def ctx : Context :=
  ⟨model.scope, BodyStore.factory ⟨[.body printBody]⟩,
    { Settings.ofPreset .fast with runTypestate := false }⟩

def session : Session := .start ⟨Catalog.sets, by decide⟩ []

def resources : Resources Session :=
  ⟨Caches.empty, (some session).map Probing.ofSession, .unlimited⟩

theorem analyzed : ∃ v, (analyze ctx site resources).1 = .ok v ∧ v.ordering = .unordered ∧
    .cone hashSet.typeRef ∈ v.possibleTypes :=
  exists_ok_of_any (by decide +kernel)

theorem located : ∃ l, (locate ctx site resources.caches).1 = .ok l ∧
    hashSet ∈ l.hierarchy.classes ∧ l.hierarchy.isSubtype hashSet.name hashSet.name = true :=
  exists_ok_of_any (by decide +kernel)

/-- The stream of the hash set has the order of a hash set, of which an object can be made. -/
theorem analyze_order_of_candidates_printing :
    ∃ v, (analyze ctx site resources).1 = .ok v ∧ site.isStatic = false ∧
      v.ordering.isKnown = true ∧ .cone hashSet.typeRef ∈ v.possibleTypes ∧
      (∃ d, session.catalog.descriptor? hashSet.typeRef.binary = some d ∧ d.IsConstructible) ∧
      ∃ c, (Prober.probe Strategy.standard site.method.name hashSet.typeRef session).1 = .ok c ∧
        c.order = v.ordering := by
  obtain ⟨v, hv, horder, hcone⟩ := analyzed
  obtain ⟨l, hl, hmem, hsub⟩ := located
  have hknown : v.ordering.isKnown = true := by
    rw [horder]
    rfl
  obtain ⟨s, l', hs, hl', -, hall⟩ := analyze_order_of_candidates hv rfl hknown
  obtain rfl : session = s := Option.some.inj hs
  obtain rfl : l = l' := Except.ok.inj (hl.symm.trans hl')
  obtain ⟨hdescriptor, ⟨c, hc, -⟩, hclasses⟩ := hall hashSet.typeRef (Or.inr hcone)
  have hclass := hclasses hashSet hmem rfl hsub ⟨hashSet.typeRef, Or.inr hcone, rfl⟩ c hc
  exact ⟨v, hv, rfl, hknown, hcone, hdescriptor, c, hc, hclass⟩

/-- The order is that of a hash set, although the parameter may be a linked hash set, which is
    probed with the other order. -/
theorem analyze_order_not_of_subclasses :
    ∃ v h c, (analyze ctx site resources).1 = .ok v ∧ site.isStatic = false ∧
      v.ordering.isKnown = true ∧ .cone hashSet.typeRef ∈ v.possibleTypes ∧
      model.scope.hierarchy site.project = .ok h ∧ linkedHashSet ∈ h.classes ∧
      linkedHashSet.isConcrete = true ∧ h.isSubtype linkedHashSet.name hashSet.name = true ∧
      (Prober.probe Strategy.standard site.method.name linkedHashSet.typeRef session).1 = .ok c ∧
      c.order ≠ v.ordering := by
  obtain ⟨v, hv, horder, hcone⟩ := analyzed
  obtain ⟨h, hh, hmem, hsub⟩ : ∃ h, model.scope.hierarchy site.project = .ok h ∧
      linkedHashSet ∈ h.classes ∧ h.isSubtype linkedHashSet.name hashSet.name = true :=
    exists_ok_of_any (by decide +kernel)
  obtain ⟨c, hc, hordered⟩ : ∃ c, (Prober.probe Strategy.standard site.method.name
      linkedHashSet.typeRef session).1 = .ok c ∧ c.order = .ordered :=
    exists_ok_of_any (by decide +kernel)
  refine ⟨v, h, c, hv, rfl, ?_, hcone, hh, hmem, rfl, hsub, hc, ?_⟩
  · rw [horder]
    rfl
  · rw [horder, hordered]
    exact SourceOrder.noConfusion

end Printing

end Analysis
end StreamVerdict
