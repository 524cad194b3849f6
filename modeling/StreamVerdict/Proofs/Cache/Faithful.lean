/-
  Caches that hold nothing but what the sources say.

  Whatever is kept for a project was given by a source, or was built from what the sources gave
  and finished; a body that is kept for a project was made in view of the class hierarchy of that
  project.  Every look-up keeps it so, and what it answers is what the sources answer.  A
  construction may fail or be cancelled halfway: what it leaves behind is bodies, and those are
  the factory's.
-/
import StreamVerdict.Cache.Basic
import StreamVerdict.Proofs.CallGraph.Determinacy
import StreamVerdict.Proofs.Data.OrdSet

namespace StreamVerdict

/-- A provider is the same when bodies that it gave out come before all else. -/
theorem BodyProvider.preferring_eq {p : BodyProvider} {bodies : List Body}
    (h : ∀ b ∈ bodies, p.request b.method = .ok (some b)) : p.preferring bodies = p := by
  apply BodyProvider.ext
  funext m
  simp only [preferring]
  split
  case h_1 b hfind =>
    have hm : b.method = m := by simpa using List.find?_some hfind
    rw [← hm]
    exact (h b (List.mem_of_find?_eq_some hfind)).symm
  case h_2 => rfl

variable {scopes : ScopeSource} {factory : BodyFactory}

/-- The graphs of a library are what constructions from the sources come to. -/
def GraphLibrary.Faithful (scopes : ScopeSource) (factory : BodyFactory) (p : ProjectId)
    (l : GraphLibrary) : Prop :=
  ∀ k g, (k, g) ∈ l.graphs → ∃ h, scopes.hierarchy p = .ok h ∧
    (Construction.build ⟨h, factory.provider h, k.depth⟩ k.entrypoints.toList
      .unlimited).result = .ok g

/-- A graph that is asked for without cancellation, whether it is kept or built, is what a
    construction from the sources comes to; and a graph that is kept afterwards is so, whatever
    the monitor did. -/
theorem GraphLibrary.Faithful.request {l : GraphLibrary} {p : ProjectId} {h : Hierarchy}
    (hl : l.Faithful scopes factory p) (hh : scopes.hierarchy p = .ok h) (depth : Nat)
    (entrypoints : List MethodRef) (monitor : Monitor) :
    (l.request ⟨h, factory.provider h, depth⟩ entrypoints monitor).2.Faithful scopes factory p ∧
    (monitor.patience = none →
      (l.request ⟨h, factory.provider h, depth⟩ entrypoints monitor).1.monitor.patience = none ∧
      (l.request ⟨h, factory.provider h, depth⟩ entrypoints monitor).1.result =
        (Construction.build ⟨h, factory.provider h, depth⟩ (OrdSet.ofList entrypoints).toList
          .unlimited).result) := by
  rw [GraphLibrary.request, GraphLibrary.requestFrom]
  rcases hlookup : l.graphs.lookup (key entrypoints depth) with _ | g
  · rcases hresult : (Construction.build ⟨h, factory.provider h, depth⟩
      (key entrypoints depth).entrypoints.toList monitor).result with e | g
    · refine ⟨by simpa only [hresult] using hl, ?_⟩
      intro hmonitor
      simp only [hresult]
      exact ⟨Construction.patience_of_build hmonitor,
        hresult ▸ Construction.build_unmonitored hmonitor rfl⟩
    · simp only [hresult]
      refine ⟨?_, fun hmonitor => ⟨Construction.patience_of_build hmonitor,
        hresult ▸ Construction.build_unmonitored hmonitor rfl⟩⟩
      intro k g' hmem
      rcases List.mem_cons.mp hmem with heq | hold
      · cases heq
        -- What was built under this monitor is built without any.
        exact ⟨h, hh, Construction.build_result_of_ok hresult rfl⟩
      · exact hl k g' hold
  · obtain ⟨h', hh', hbuilt⟩ := hl _ g (mem_of_lookup hlookup)
    rw [hh] at hh'
    cases hh'
    exact ⟨hl, fun hmonitor => ⟨hmonitor, hbuilt.symm⟩⟩

namespace Caches

/-- Whatever is kept is what the sources say. -/
structure Faithful (scopes : ScopeSource) (factory : BodyFactory) (c : Caches) : Prop where
  hierarchies : ∀ p h, (p, h) ∈ c.hierarchies → scopes.hierarchy p = .ok h
  /-- A body is the one that is made in view of the hierarchy of its project. -/
  bodies : ∀ p m b, ((p, m), b) ∈ c.bodies →
    ∃ h, scopes.hierarchy p = .ok h ∧ factory.make h m = .ok (some b)
  libraries : ∀ p l, (p, l) ∈ c.libraries → l.Faithful scopes factory p

namespace Faithful

variable {c : Caches} {p : ProjectId} {h : Hierarchy}

theorem empty : Faithful scopes factory Caches.empty :=
  ⟨fun _ _ h => (List.not_mem_nil h).elim, fun _ _ _ h => (List.not_mem_nil h).elim,
    fun _ _ h => (List.not_mem_nil h).elim⟩

theorem clear (c : Caches) : Faithful scopes factory c.clear :=
  ⟨fun _ _ h => (List.not_mem_nil h).elim, fun _ _ _ h => (List.not_mem_nil h).elim,
    fun _ _ h => (List.not_mem_nil h).elim⟩

/-- Counters play no part. -/
theorem of_tables {c' : Caches} (hc : Faithful scopes factory c)
    (hhierarchies : c'.hierarchies = c.hierarchies) (hbodies : c'.bodies = c.bodies)
    (hlibraries : c'.libraries = c.libraries) : Faithful scopes factory c' :=
  ⟨hhierarchies ▸ hc.hierarchies, hbodies ▸ hc.bodies, hlibraries ▸ hc.libraries⟩

/-! ### Hierarchies -/

theorem hierarchyFrom (hc : Faithful scopes factory c) (p : ProjectId) :
    (c.hierarchyFrom scopes.hierarchy p).1 = scopes.hierarchy p ∧
      Faithful scopes factory (c.hierarchyFrom scopes.hierarchy p).2 := by
  rw [Caches.hierarchyFrom]
  rcases hlookup : c.hierarchies.lookup p with _ | found
  · rcases hsource : scopes.hierarchy p with e | built
    · exact ⟨rfl, hc.of_tables rfl rfl rfl⟩
    · refine ⟨rfl, ?_, hc.bodies, hc.libraries⟩
      intro p' h' hmem
      rcases List.mem_cons.mp hmem with heq | hold
      · cases heq
        exact hsource
      · exact hc.hierarchies p' h' hold
  · exact ⟨(hc.hierarchies p found (mem_of_lookup hlookup)).symm, hc.of_tables rfl rfl rfl⟩

/-! ### Bodies -/

/-- A body that is kept for a project is what the factory makes in view of its hierarchy. -/
theorem make_of_mem (hc : Faithful scopes factory c) (hh : scopes.hierarchy p = .ok h)
    {m : MethodRef} {b : Body} (hmem : ((p, m), b) ∈ c.bodies) :
    factory.make h m = .ok (some b) := by
  obtain ⟨h', hh', hb⟩ := hc.bodies p m b hmem
  rw [hh] at hh'
  cases hh'
  exact hb

/-- A body that was made for a project may be kept for it, and is the one to be used. -/
theorem keepBody (hc : Faithful scopes factory c) (hh : scopes.hierarchy p = .ok h)
    {m : MethodRef} {b : Body} (hb : factory.make h m = .ok (some b)) :
    (c.keepBody p b).1 = b ∧ Faithful scopes factory (c.keepBody p b).2 := by
  obtain rfl : b.method = m := factory.own h m b hb
  rw [Caches.keepBody]
  rcases hlookup : c.bodies.lookup (p, b.method) with _ | kept
  · refine ⟨rfl, hc.hierarchies, ?_, hc.libraries⟩
    intro p' m' b' hmem
    rcases List.mem_cons.mp hmem with heq | hold
    · cases heq
      exact ⟨h, hh, hb⟩
    · exact hc.bodies p' m' b' hold
  · -- A body that is kept there was made in view of the same hierarchy.
    have hkept := hc.make_of_mem hh (mem_of_lookup hlookup)
    rw [hb] at hkept
    cases hkept
    exact ⟨rfl, hc.of_tables rfl rfl rfl⟩

theorem bodyFrom? (hc : Faithful scopes factory c) (hh : scopes.hierarchy p = .ok h)
    (m : MethodRef) :
    (c.bodyFrom? (factory.make h) p m).1 = factory.make h m ∧
      Faithful scopes factory (c.bodyFrom? (factory.make h) p m).2 := by
  rw [Caches.bodyFrom?]
  rcases hlookup : c.bodies.lookup (p, m) with _ | found
  · rcases hmake : factory.make h m with e | _ | b
    · exact ⟨rfl, hc.of_tables rfl rfl rfl⟩
    · exact ⟨rfl, hc.of_tables rfl rfl rfl⟩
    · have hasked : Faithful scopes factory
          { c.count .miss with bodyRequests := c.bodyRequests + 1 } := hc.of_tables rfl rfl rfl
      obtain ⟨hsame, hkept⟩ := hasked.keepBody hh hmake
      refine ⟨?_, hkept⟩
      simp only [Prod.map, hsame]
  · exact ⟨(hc.make_of_mem hh (mem_of_lookup hlookup)).symm, hc.of_tables rfl rfl rfl⟩

theorem bodyFrom (hc : Faithful scopes factory c) (hh : scopes.hierarchy p = .ok h)
    (m : MethodRef) :
    (c.bodyFrom (factory.make h) p m).1 = (factory.provider h).bodyOf m ∧
      Faithful scopes factory (c.bodyFrom (factory.make h) p m).2 := by
  obtain ⟨hanswer, hkept⟩ := hc.bodyFrom? hh m
  exact ⟨congrArg (BodyStore.demand m) hanswer, hkept⟩

theorem requestAll (hc : Faithful scopes factory c) (hh : scopes.hierarchy p = .ok h)
    (ms : List MethodRef) :
    Faithful scopes factory (c.requestAll (factory.make h) p ms) := by
  induction ms generalizing c with
  | nil => exact hc
  | cons m ms ih => exact ih (hc.bodyFrom? hh m).2

/-- The bodies that are kept for a project make no difference to what is answered for it. -/
theorem preferring_eq (hc : Faithful scopes factory c) (hh : scopes.hierarchy p = .ok h) :
    (factory.provider h).preferring (c.bodiesOf p) = factory.provider h := by
  refine BodyProvider.preferring_eq ?_
  intro b hb
  obtain ⟨⟨⟨p', m⟩, b'⟩, hmem, rfl⟩ := List.mem_map.mp hb
  obtain ⟨hold, hproject⟩ := List.mem_filter.mp hmem
  obtain rfl : p' = p := of_decide_eq_true hproject
  have hmake := hc.make_of_mem hh hold
  show factory.make h b'.method = .ok (some b')
  rw [factory.own h m b' hmake]
  exact hmake

/-! ### Call graphs -/

theorem library (hc : Faithful scopes factory c) (p : ProjectId) :
    (c.library p).1.Faithful scopes factory p ∧ Faithful scopes factory (c.library p).2 := by
  rw [Caches.library]
  rcases hlookup : c.libraries.lookup p with _ | l
  · have hempty : (GraphLibrary.empty p).Faithful scopes factory p :=
      fun _ _ hmem => (List.not_mem_nil hmem).elim
    refine ⟨hempty, hc.hierarchies, hc.bodies, ?_⟩
    intro p' l' hmem
    rcases List.mem_cons.mp hmem with heq | hold
    · cases heq
      exact hempty
    · exact hc.libraries p' l' hold
  · exact ⟨hc.libraries p l (mem_of_lookup hlookup), hc.of_tables rfl rfl rfl⟩

theorem keepLibrary (hc : Faithful scopes factory c) {l : GraphLibrary}
    (hl : l.Faithful scopes factory p) : Faithful scopes factory (c.keepLibrary p l) := by
  refine ⟨hc.hierarchies, hc.bodies, ?_⟩
  intro p' l' hmem
  rcases List.mem_cons.mp hmem with heq | hold
  · cases heq
    exact hl
  · exact hc.libraries p' l' (List.mem_filter.mp hold).1

/-- The call graph that caches hand out without cancellation is what a construction from the
    sources comes to; and what is kept afterwards is what the sources say, whatever the monitor
    did. -/
theorem graph (hc : Faithful scopes factory c) (hh : scopes.hierarchy p = .ok h)
    (entrypoints : List MethodRef) (depth : Nat) (monitor : Monitor) :
    Faithful scopes factory
      (c.graph (factory.provider h) h p entrypoints depth monitor).2 ∧
    (monitor.patience = none →
      (c.graph (factory.provider h) h p entrypoints depth monitor).1.monitor.patience = none ∧
      (c.graph (factory.provider h) h p entrypoints depth monitor).1.result =
        (Construction.build ⟨h, factory.provider h, depth⟩ (OrdSet.ofList entrypoints).toList
          .unlimited).result) := by
  obtain ⟨hlibrary, hcaches⟩ := hc.library p
  rw [Caches.graph]
  simp only [hcaches.preferring_eq hh]
  obtain ⟨hkept, hresult⟩ := hlibrary.request hh depth entrypoints monitor
  exact ⟨(hcaches.keepLibrary hkept).requestAll hh _, hresult⟩

end Faithful

end Caches

end StreamVerdict
