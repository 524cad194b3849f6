/-
  What caches answer after any history.

  A request that can be served is answered with the value that was built first, since the last
  clearing, for the same project, or for the same method of the project.  What a project's
  requests are answered depends on the requests for that project and on the clearings alone.
-/
import StreamVerdict.Proofs.Cache.History

namespace StreamVerdict
namespace Caches

/-! ### Projects do not meet -/

/-- Two caches hold the same for a project. -/
structure Agree (p : ProjectId) (c c' : Caches) : Prop where
  hierarchies : c.hierarchies.lookup p = c'.hierarchies.lookup p
  bodies : ∀ m, c.bodies.lookup (p, m) = c'.bodies.lookup (p, m)
  libraries : c.libraries.lookup p = c'.libraries.lookup p

namespace Agree

variable {p : ProjectId} {c c' : Caches} {r : Request}

theorem refl (p : ProjectId) (c : Caches) : Agree p c c := ⟨rfl, fun _ => rfl, rfl⟩

theorem trans {c'' : Caches} (h : Agree p c c') (h' : Agree p c' c'') : Agree p c c'' :=
  ⟨h.hierarchies.trans h'.hierarchies, fun m => (h.bodies m).trans (h'.bodies m),
    h.libraries.trans h'.libraries⟩

theorem hierarchyFrom (h : Agree p c c') (source : HierarchySource) :
    (c.hierarchyFrom source p).1 = (c'.hierarchyFrom source p).1 ∧
      Agree p (c.hierarchyFrom source p).2 (c'.hierarchyFrom source p).2 := by
  simp only [Caches.hierarchyFrom, h.hierarchies]
  rcases c'.hierarchies.lookup p with _ | g
  · rcases source p with e | g
    · exact ⟨rfl, h.hierarchies, h.bodies, h.libraries⟩
    · refine ⟨rfl, ?_, h.bodies, h.libraries⟩
      exact List.lookup_cons_self.trans List.lookup_cons_self.symm
  · exact ⟨rfl, h.hierarchies, h.bodies, h.libraries⟩

theorem keepBody (h : Agree p c c') (b : Body) :
    (c.keepBody p b).1 = (c'.keepBody p b).1 ∧
      Agree p (c.keepBody p b).2 (c'.keepBody p b).2 := by
  simp only [Caches.keepBody, h.bodies]
  rcases c'.bodies.lookup (p, b.method) with _ | kept
  · refine ⟨rfl, h.hierarchies, ?_, h.libraries⟩
    intro m
    by_cases hm : m = b.method
    · subst hm
      exact List.lookup_cons_self.trans List.lookup_cons_self.symm
    · have hkey : (p, m) ≠ (p, b.method) := fun heq => hm (congrArg Prod.snd heq)
      exact (lookup_cons_of_ne hkey).trans ((h.bodies m).trans (lookup_cons_of_ne hkey).symm)
  · exact ⟨rfl, h.hierarchies, h.bodies, h.libraries⟩

theorem bodyFrom? (h : Agree p c c') (source : BodySource) (m : MethodRef) :
    (c.bodyFrom? source p m).1 = (c'.bodyFrom? source p m).1 ∧
      Agree p (c.bodyFrom? source p m).2 (c'.bodyFrom? source p m).2 := by
  simp only [Caches.bodyFrom?, h.bodies m]
  rcases c'.bodies.lookup (p, m) with _ | b
  · rcases source m with e | _ | b
    · exact ⟨rfl, h.hierarchies, h.bodies, h.libraries⟩
    · exact ⟨rfl, h.hierarchies, h.bodies, h.libraries⟩
    · have hasked : Agree p { c.count .miss with bodyRequests := c.bodyRequests + 1 }
          { c'.count .miss with bodyRequests := c'.bodyRequests + 1 } :=
        ⟨h.hierarchies, h.bodies, h.libraries⟩
      obtain ⟨hkept, hagree⟩ := hasked.keepBody b
      exact ⟨congrArg (fun kept => Except.ok (some kept)) hkept, hagree⟩
  · exact ⟨rfl, h.hierarchies, h.bodies, h.libraries⟩

theorem library (h : Agree p c c') :
    (c.library p).1 = (c'.library p).1 ∧ Agree p (c.library p).2 (c'.library p).2 := by
  simp only [Caches.library, h.libraries]
  rcases c'.libraries.lookup p with _ | l
  · refine ⟨rfl, h.hierarchies, h.bodies, ?_⟩
    exact List.lookup_cons_self.trans List.lookup_cons_self.symm
  · exact ⟨rfl, h.hierarchies, h.bodies, h.libraries⟩

/-- A request that concerns the project is answered alike, and what is held for the project
    stays alike. -/
theorem serve (h : Agree p c c') (hr : r.concerns p) :
    (c.serve r).1 = (c'.serve r).1 ∧ Agree p (c.serve r).2 (c'.serve r).2 := by
  have hproject : ∀ q, r.project? = some q → q = p := by
    intro q hq
    simpa [Request.concerns, hq] using hr
  cases r with
  | hierarchy source q =>
      obtain rfl := hproject q rfl
      obtain ⟨hanswer, hagree⟩ := h.hierarchyFrom source
      exact ⟨congrArg Answer.hierarchy hanswer, hagree⟩
  | body source q m =>
      obtain rfl := hproject q rfl
      obtain ⟨hanswer, hagree⟩ := h.bodyFrom? source m
      exact ⟨congrArg (fun x => Answer.body (BodyStore.demand m x)) hanswer, hagree⟩
  | body? source q m =>
      obtain rfl := hproject q rfl
      obtain ⟨hanswer, hagree⟩ := h.bodyFrom? source m
      exact ⟨congrArg Answer.body? hanswer, hagree⟩
  | library q =>
      obtain rfl := hproject q rfl
      obtain ⟨hanswer, hagree⟩ := h.library
      exact ⟨congrArg Answer.library hanswer, hagree⟩
  | clear => exact ⟨rfl, rfl, fun _ => rfl, rfl⟩

theorem bodyFrom?_other (c : Caches) {q : ProjectId} (hne : p ≠ q) (source : BodySource)
    (m : MethodRef) : Agree p (c.bodyFrom? source q m).2 c := by
  rw [Caches.bodyFrom?]
  rcases c.bodies.lookup (q, m) with _ | b
  · rcases source m with e | _ | b
    · exact ⟨rfl, fun _ => rfl, rfl⟩
    · exact ⟨rfl, fun _ => rfl, rfl⟩
    · simp only [Caches.keepBody, Prod.map_snd]
      split
      · exact ⟨rfl, fun _ => rfl, rfl⟩
      · refine ⟨rfl, ?_, rfl⟩
        intro m'
        exact lookup_cons_of_ne fun heq => hne (congrArg Prod.fst heq)
  · exact ⟨rfl, fun _ => rfl, rfl⟩

/-- A request for another project leaves alone what is held for this one. -/
theorem serve_other (c : Caches) (hr : ¬ r.concerns p) : Agree p (c.serve r).2 c := by
  have hproject : ∀ q, r.project? = some q → p ≠ q := by
    intro q hq heq
    simp [Request.concerns, hq, heq] at hr
  cases r with
  | hierarchy source q =>
      have hne := hproject q rfl
      simp only [Caches.serve, Prod.map_snd, id, Caches.hierarchyFrom]
      rcases c.hierarchies.lookup q with _ | g
      · rcases source q with e | g
        · exact ⟨rfl, fun _ => rfl, rfl⟩
        · exact ⟨lookup_cons_of_ne hne, fun _ => rfl, rfl⟩
      · exact ⟨rfl, fun _ => rfl, rfl⟩
  | body source q m => exact bodyFrom?_other c (hproject q rfl) source m
  | body? source q m => exact bodyFrom?_other c (hproject q rfl) source m
  | library q =>
      have hne := hproject q rfl
      simp only [Caches.serve, Prod.map_snd, id, Caches.library]
      rcases c.libraries.lookup q with _ | l
      · exact ⟨rfl, fun _ => rfl, lookup_cons_of_ne hne⟩
      · exact ⟨rfl, fun _ => rfl, rfl⟩
  | clear => exact absurd rfl hr

/-- What is held for a project is what its own requests, and the clearings, leave. -/
theorem filter (p : ProjectId) (rs : List Request) :
    Agree p (History.of rs).caches (History.of (rs.filter fun r => r.concerns p)).caches := by
  induction rs using List.reverseRecOn with
  | nil => exact refl p _
  | append_singleton rs r ih =>
      rw [History.of_append, List.filter_append]
      by_cases hr : r.concerns p
      · rw [List.filter_cons_of_pos hr, List.filter_nil, History.of_append]
        exact (ih.serve hr).2
      · rw [List.filter_cons_of_neg hr, List.filter_nil, List.append_nil]
        exact (serve_other _ hr).trans ih

end Agree

/-! ### The first value that was built -/

namespace History

variable {h : History} {p : ProjectId} {m : MethodRef}

/-- The first hierarchy of a project was given by its source, and is given out again. -/
theorem Sound.answer_hierarchy (hs : h.Sound) {first : HierarchySource} {g : Hierarchy}
    (hfirst : h.firstHierarchy? p = some (first, g)) (source : HierarchySource) :
    first p = .ok g ∧ (h.caches.serve (.hierarchy source p)).1 = .hierarchy (.ok g) := by
  have hlookup := hs.hierarchies.lookup p
  rw [hfirst, Option.map_some] at hlookup
  refine ⟨hs.hierarchies.gave p first g hfirst, ?_⟩
  rw [Caches.serve, hierarchyFrom_kept hlookup]
  rfl

/-- Before that, a project's hierarchy is what the source says. -/
theorem Sound.answer_newHierarchy (hs : h.Sound) (hnone : h.firstHierarchy? p = none)
    (source : HierarchySource) :
    (h.caches.serve (.hierarchy source p)).1 = .hierarchy (source p) := by
  have hlookup := hs.hierarchies.lookup p
  rw [hnone, Option.map_none] at hlookup
  rw [Caches.serve]
  rcases hsource : source p with e | g
  · rw [hierarchyFrom_failed hlookup hsource]
    rfl
  · rw [hierarchyFrom_built hlookup hsource]
    rfl

/-- The first body of a method was given by its source, and is given out again in both ways. -/
theorem Sound.answer_body (hs : h.Sound) {first : BodySource} {b : Body}
    (hfirst : h.firstBody? (p, m) = some (first, b)) (source : BodySource) :
    first m = .ok (some b) ∧ (h.caches.serve (.body source p m)).1 = .body (.ok b) ∧
      (h.caches.serve (.body? source p m)).1 = .body? (.ok (some b)) := by
  have hlookup := hs.bodies.lookup (p, m)
  rw [hfirst, Option.map_some] at hlookup
  refine ⟨hs.bodies.gave (p, m) first b hfirst, ?_, ?_⟩
  · rw [Caches.serve, bodyFrom, bodyFrom?_kept hlookup]
    rfl
  · rw [Caches.serve, bodyFrom?_kept hlookup]
    rfl

/-- Before that, a method's body is what the source says. -/
theorem Sound.answer_newBody (hs : h.Sound) (hnone : h.firstBody? (p, m) = none)
    {source : BodySource} (hhonest : ∀ b, source m = .ok (some b) → b.method = m) :
    (h.caches.serve (.body source p m)).1 = .body (BodyStore.demand m (source m)) ∧
      (h.caches.serve (.body? source p m)).1 = .body? (source m) := by
  have hlookup := hs.bodies.lookup (p, m)
  rw [hnone, Option.map_none] at hlookup
  have hanswer : (h.caches.bodyFrom? source p m).1 = source m := by
    rcases hsource : source m with e | _ | b
    · rw [bodyFrom?_failed hlookup hsource]
    · rw [bodyFrom?_bodiless hlookup hsource]
    · rw [bodyFrom?_built hlookup hsource (hhonest b hsource)]
  exact ⟨congrArg (fun x => Answer.body (BodyStore.demand m x)) hanswer,
    congrArg Answer.body? hanswer⟩

/-- What caches do after any history.  A hierarchy, or a body in either way, that was built since
    the last clearing stays the answer whatever the source of a later request says; before that,
    the answer is the source's.  A request that comes back with empty hands changes nothing but
    the count of misses; a project's answers are what they would be had only its own requests and
    the clearings been made; every request is a hit or a miss and not both; there are as many
    hierarchies and bodies, under as many keys, as builds were counted since the last clearing,
    and after a clearing there is nothing. -/
theorem serve_after (past : List Request) (hpast : ∀ r ∈ past, r.IsHonest) :
    (∀ (source : HierarchySource) (p : ProjectId),
      (∀ first g, (of past).firstHierarchy? p = some (first, g) → first p = .ok g ∧
        ((of past).caches.serve (.hierarchy source p)).1 = .hierarchy (.ok g)) ∧
      ((of past).firstHierarchy? p = none →
        ((of past).caches.serve (.hierarchy source p)).1 = .hierarchy (source p))) ∧
    (∀ (source : BodySource) (p : ProjectId) (m : MethodRef),
      (∀ first b, (of past).firstBody? (p, m) = some (first, b) → first m = .ok (some b) ∧
        ((of past).caches.serve (.body source p m)).1 = .body (.ok b) ∧
        ((of past).caches.serve (.body? source p m)).1 = .body? (.ok (some b))) ∧
      ((of past).firstBody? (p, m) = none → (∀ b, source m = .ok (some b) → b.method = m) →
        ((of past).caches.serve (.body source p m)).1 = .body (BodyStore.demand m (source m)) ∧
        ((of past).caches.serve (.body? source p m)).1 = .body? (source m))) ∧
    (∀ r, ((of past).caches.serve r).1.isEmptyHanded →
      SameTables (of past).caches ((of past).caches.serve r).2 ∧
      ((of past).caches.serve r).2.metrics = (of past).caches.metrics.count .miss 1) ∧
    (∀ r p, r.project? = some p →
      ((of past).caches.serve r).1 =
        ((of (past.filter fun r => r.concerns p)).caches.serve r).1) ∧
    (∀ r, r.isClear = false →
      (((of past).caches.serve r).2.metrics.hits = (of past).caches.metrics.hits + 1 ∧
        ((of past).caches.serve r).2.metrics.misses = (of past).caches.metrics.misses) ∨
      (((of past).caches.serve r).2.metrics.hits = (of past).caches.metrics.hits ∧
        ((of past).caches.serve r).2.metrics.misses = (of past).caches.metrics.misses + 1)) ∧
    ((of past).caches.hierarchies.map Prod.fst).Nodup ∧
    ((of past).caches.bodies.map Prod.fst).Nodup ∧
    (of past).caches.stats.hierarchies + (of past).caches.stats.bodies =
      (of past).recent.countP Entry.isBuild ∧
    ((of past).caches.serve .clear).2.stats =
      ⟨0, 0, 0, (of past).caches.metrics.count .clear 1⟩ := by
  have hs := Sound.of past hpast
  refine ⟨?_, ?_, ?_, ?_, ?_, hs.hierarchies.keys, hs.bodies.keys, hs.builds, rfl⟩
  · intro source p
    exact ⟨fun first g hfirst => hs.answer_hierarchy hfirst source,
      fun hnone => hs.answer_newHierarchy hnone source⟩
  · intro source p m
    exact ⟨fun first b hfirst => hs.answer_body hfirst source,
      fun hnone hhonest => hs.answer_newBody hnone hhonest⟩
  · intro r hempty
    exact serve_emptyHanded hempty
  · intro r p hproject
    have hconcerns : r.concerns p := by simp [Request.concerns, hproject]
    exact ((Agree.filter p past).serve hconcerns).1
  · intro r hclear
    cases counted_serve (of past).caches hclear with
    | hit hmetrics =>
        rw [hmetrics]
        exact .inl ⟨rfl, rfl⟩
    | miss hmetrics =>
        rw [hmetrics]
        exact .inr ⟨rfl, rfl⟩
    | build hmetrics =>
        rw [hmetrics]
        exact .inr ⟨rfl, rfl⟩

/-! ### Two shops -/

namespace Shops

def shop : ProjectId := ⟨"shop"⟩

def branch : ProjectId := ⟨"branch"⟩

def main : MethodRef := ⟨default, "main", [], default⟩

/-- Bodies that differ in whether they are static. -/
def bodies (isStatic : Bool) : BodySource := fun m =>
  .ok (some ⟨m, isStatic, [], [], [], .empty⟩)

def noBodies : BodySource := fun _ => .ok none

def hierarchies : HierarchySource := fun p => .ok (.empty p)

def noHierarchies : HierarchySource := fun p => .error (.scopeUnavailable p "closed")

/-- Something is built and cleared away; then the shop's hierarchy is asked for twice, and bodies
    in both ways and for both projects. -/
def past : List Request :=
  [.body (bodies false) shop main, .clear, .hierarchy noHierarchies shop,
    .body? noBodies shop main, .hierarchy hierarchies shop, .body? (bodies true) shop main,
    .library branch, .body (bodies false) branch main, .hierarchy noHierarchies shop]

theorem isHonest_past : ∀ r ∈ past, r.IsHonest := by
  have hbodies : ∀ isStatic m b, bodies isStatic m = .ok (some b) → b.method = m := by
    intro isStatic m b hb
    cases hb
    rfl
  have hnone : ∀ m b, noBodies m = .ok (some b) → b.method = m := by
    intro m b hb
    cases hb
  intro r hr
  simp only [past, List.mem_cons, List.not_mem_nil, or_false] at hr
  rcases hr with rfl | rfl | rfl | rfl | rfl | rfl | rfl | rfl | rfl
  · exact hbodies false
  · trivial
  · trivial
  · exact hnone
  · trivial
  · exact hbodies true
  · trivial
  · exact hbodies false
  · trivial

/-- A store without bodies is still answered with the shop's static body, and with the branch's
    body, which is not static; three builds were counted, and a clearing leaves nothing. -/
theorem serve_after_shops : (∀ r ∈ past, r.IsHonest) ∧
    ((of past).caches.serve (.hierarchy noHierarchies shop)).1 = .hierarchy (.ok (.empty shop)) ∧
    ((of past).caches.serve (.body noBodies shop main)).1 =
      .body (.ok ⟨main, true, [], [], [], .empty⟩) ∧
    ((of past).caches.serve (.body? noBodies branch main)).1 =
      .body? (.ok (some ⟨main, false, [], [], [], .empty⟩)) ∧
    ((of past).caches.serve (.hierarchy noHierarchies branch)).1 =
      .hierarchy (.error (.scopeUnavailable branch "closed")) ∧
    SameTables (of past).caches ((of past).caches.serve (.hierarchy noHierarchies branch)).2 ∧
    (of past).caches.stats.hierarchies + (of past).caches.stats.bodies = 3 ∧
    ((of past).caches.serve .clear).2.stats.bodies = 0 := by
  obtain ⟨hhierarchies, hbodies, hempty, -, -, -, -, hbuilds, hcleared⟩ :=
    serve_after past isHonest_past
  have hbranch := (hhierarchies noHierarchies branch).2 rfl
  refine ⟨isHonest_past, ?_, ?_, ?_, hbranch, ?_, hbuilds.trans rfl, ?_⟩
  · exact ((hhierarchies noHierarchies shop).1 hierarchies _ rfl).2
  · exact ((hbodies noBodies shop main).1 (bodies true) _ rfl).2.1
  · exact ((hbodies noBodies branch main).1 (bodies false) _ rfl).2.2
  · exact (hempty (.hierarchy noHierarchies branch) (hbranch ▸ rfl)).1
  · rw [hcleared]

end Shops

end History

end Caches
end StreamVerdict
