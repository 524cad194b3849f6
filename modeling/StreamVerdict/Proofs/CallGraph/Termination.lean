/-
  Every construction comes to an end.

  A construction from finitely many bodies can learn only so many facts, because all nodes and
  all objects are made of the parts of the input.  Its potential counts the facts that are
  missing, each with a weight above the length that the queue can have, and the nodes that are
  queued.  Nothing is queued unless something is learnt.  So every turn lowers the potential: it
  learns something, or it leaves the queue one node shorter.  The turns that a construction takes
  are no more than the potential at the start.
-/
import Mathlib.Data.List.Nodup
import Mathlib.Data.List.Perm.Subperm
import StreamVerdict.Proofs.CallGraph.Extent
import StreamVerdict.Proofs.CallGraph.Queueing

namespace StreamVerdict
namespace Construction

variable {p : FinitePlan} {entrypoints : List MethodRef} {n : Nat} {x : Node}

/-! ### Missing facts -/

/-- Whatever can become known of the sets: an object in a value of a node. -/
def FinitePlan.possible (p : FinitePlan) (entrypoints : List MethodRef) :
    List (Nat × ValueNumber × Instance) :=
  List.range (p.nodes entrypoints).length ×ˢ (p.values ×ˢ p.instances entrypoints)

/-- The number of nodes that are not in the graph yet and of objects that are not in a set yet. -/
def missing (p : FinitePlan) (entrypoints : List MethodRef) (s : Progress) : Nat :=
  (List.range (p.nodes entrypoints).length).countP (fun n => (s.graph.node? n).isNone) +
    (p.possible entrypoints).countP fun c => c.2.2 ∉ s.pointsTo.get c.1 c.2.1

/-- A missing fact weighs more than all the nodes that can be queued. -/
def potential (p : FinitePlan) (entrypoints : List MethodRef) (s : Progress) : Nat :=
  ((p.nodes entrypoints).length + 1) * missing p entrypoints s + s.queue.length

/-- What every turn needs and preserves. -/
structure Ready (p : FinitePlan) (entrypoints : List MethodRef) (s : Progress) : Prop where
  grounded : s.Grounded p.toPlan entrypoints
  tidy : s.Tidy

theorem ready_of_seeding {s : Progress}
    (h : entrypoints.zipIdx.foldlM (seedEntry p.toPlan) Progress.start = .ok s) :
    Ready p entrypoints s :=
  ⟨grounded_of_seeding h, tidy_of_seeding h⟩

/-- The graph has no more nodes than the parts can be put together to. -/
theorem Ready.node?_lt {s : Progress} (h : Ready p entrypoints s)
    (hx : s.graph.node? n = some x) : n < (p.nodes entrypoints).length := by
  have hsub : s.graph.nodes ⊆ p.nodes entrypoints := by
    intro y hy
    obtain ⟨m, hm⟩ := List.getElem?_of_mem hy
    exact (h.grounded.node m y hm).confined
  exact Nat.lt_of_lt_of_le (CallGraph.node?_lt hx) (s.graph.nodes_nodup.subperm hsub).length_le

theorem Ready.mem_possible {s : Progress} (h : Ready p entrypoints s) {v : ValueNumber}
    {o : Instance} (ho : o ∈ s.pointsTo.get n v) : (n, v, o) ∈ p.possible entrypoints := by
  obtain ⟨x, hx, hderived⟩ := h.grounded.holds n v o ho
  obtain ⟨hv, ho'⟩ := hderived.confined
  exact List.mem_product.mpr ⟨List.mem_range.mpr (h.node?_lt hx), List.mem_product.mpr ⟨hv, ho'⟩⟩

/-- The queue is no longer than there can be nodes. -/
theorem Ready.length_queue_le {s : Progress} (h : Ready p entrypoints s) :
    s.queue.length ≤ (p.nodes entrypoints).length := by
  have hsub : s.queue ⊆ List.range (p.nodes entrypoints).length := by
    intro m hm
    obtain ⟨x, hx⟩ := h.tidy.nodes m hm
    exact List.mem_range.mpr (h.node?_lt hx)
  have hle := (h.tidy.nodup.subperm hsub).length_le
  rwa [List.length_range] at hle

section Missing

variable {s s' : Progress}

theorem isNone_of_le (hg : s.graph ≤ s'.graph) {m : Nat} (h : (s'.graph.node? m).isNone = true) :
    (s.graph.node? m).isNone = true := by
  rcases hy : s.graph.node? m with _ | y
  · rfl
  · rw [hg.nodes m y hy] at h
    cases h

theorem not_mem_of_le (hp : s.pointsTo ≤ s'.pointsTo) {c : Nat × ValueNumber × Instance}
    (h : decide (c.2.2 ∉ s'.pointsTo.get c.1 c.2.1) = true) :
    decide (c.2.2 ∉ s.pointsTo.get c.1 c.2.1) = true := by
  rw [decide_eq_true_eq] at h ⊢
  exact fun hold => h (hp _ _ _ hold)

theorem missing_le_of_le (hg : s.graph ≤ s'.graph) (hp : s.pointsTo ≤ s'.pointsTo) :
    missing p entrypoints s' ≤ missing p entrypoints s :=
  Nat.add_le_add (List.countP_mono_left fun _ _ => isNone_of_le hg)
    (List.countP_mono_left fun _ _ => not_mem_of_le hp)

/-- What has grown is missing no longer. -/
theorem missing_lt_of_grown (h : Ready p entrypoints s') (hg : s.graph ≤ s'.graph)
    (hp : s.pointsTo ≤ s'.pointsTo) (hgrown : Grown s s') :
    missing p entrypoints s' < missing p entrypoints s := by
  rcases hgrown with ⟨m, y, hy, hnone⟩ | ⟨m, v, o, ho, hnot⟩
  · refine Nat.add_lt_add_of_lt_of_le ?_ (List.countP_mono_left fun _ _ => not_mem_of_le hp)
    refine Worklist.countP_lt_countP (fun _ _ => isNone_of_le hg)
      (List.mem_range.mpr (h.node?_lt hy)) ?_ ?_
    · rw [hy]
      rfl
    · rw [hnone]
      rfl
  · refine Nat.add_lt_add_of_le_of_lt (List.countP_mono_left fun _ _ => isNone_of_le hg) ?_
    refine Worklist.countP_lt_countP (fun _ _ => not_mem_of_le hp) (h.mem_possible ho) ?_ ?_
    · rw [decide_eq_false_iff_not, not_not]
      exact ho
    · rw [decide_eq_true_eq]
      exact hnot

end Missing

/-- A turn that goes on lowers the potential. -/
theorem Ready.turn {s t s' : Progress} (h : Ready p entrypoints s) (htake : s.take? = some (n, t))
    (hproc : process p.toPlan n t = .ok s') :
    Ready p entrypoints s' ∧ potential p entrypoints s' < potential p entrypoints s := by
  obtain ⟨rest, hqueue, rfl⟩ := take?_eq_some htake
  obtain ⟨hg, hp, -⟩ := growth_of_process hproc
  have hgrounded : ({ s with queue := rest } : Progress).Grounded p.toPlan entrypoints := h.grounded
  have htidy : ({ s with queue := rest } : Progress).Tidy := by
    have hnodup := h.tidy.nodup
    rw [hqueue, List.nodup_cons] at hnodup
    refine ⟨hnodup.2, ?_⟩
    intro m hm
    refine h.tidy.nodes m ?_
    rw [hqueue]
    exact List.mem_cons_of_mem n hm
  obtain ⟨hcases, htidy'⟩ := queue_of_process hgrounded hproc
  have hready : Ready p entrypoints s' :=
    ⟨grounded_process hgrounded hproc, htidy' htidy⟩
  refine ⟨hready, ?_⟩
  rw [potential, potential, hqueue, List.length_cons]
  rcases hcases with hsame | hgrown
  · -- Nothing is queued, and the node that was taken is gone.
    have hle : missing p entrypoints s' ≤ missing p entrypoints s := missing_le_of_le hg hp
    have hmul := Nat.mul_le_mul_left ((p.nodes entrypoints).length + 1) hle
    have hlength : s'.queue.length = rest.length := congrArg List.length hsame
    omega
  · -- One fact less is missing, and that outweighs the whole queue.
    have hlt : missing p entrypoints s' + 1 ≤ missing p entrypoints s :=
      missing_lt_of_grown hready hg hp hgrown
    have hmul := Nat.mul_le_mul_left ((p.nodes entrypoints).length + 1) hlt
    have hlength := hready.length_queue_le
    rw [Nat.mul_add, Nat.mul_one] at hmul
    omega

/-! ### Enough turns -/

theorem pow_add_pow_le {b i j k : Nat} (hb : 2 ≤ b) (hij : i ≤ j) (hjk : j < k) :
    b ^ i + b ^ j ≤ b ^ k := by
  have hle : b ^ i ≤ b ^ j := Nat.pow_le_pow_right (by omega) hij
  have hmul : b ^ j * 2 ≤ b ^ j * b := Nat.mul_le_mul_left _ hb
  have hnext : b ^ (j + 1) ≤ b ^ k := Nat.pow_le_pow_right (by omega) hjk
  rw [Nat.pow_succ] at hnext
  omega

theorem missing_le (p : FinitePlan) (entrypoints : List MethodRef) (s : Progress) :
    missing p entrypoints s ≤ p.magnitude entrypoints ^ (3 * p.depth + 5) := by
  have hnodes := length_nodes_le p entrypoints
  have hpossible : (p.possible entrypoints).length ≤
      p.magnitude entrypoints ^ (3 * p.depth + 4) := by
    have hpow : p.magnitude entrypoints ^ (3 * p.depth + 4) =
        p.magnitude entrypoints ^ (2 * p.depth + 2) *
          (p.magnitude entrypoints * p.magnitude entrypoints ^ (p.depth + 1)) := by
      rw [← Nat.pow_succ', ← Nat.pow_add]
      congr 1
      omega
    rw [FinitePlan.possible, List.length_product, List.length_range, List.length_product, hpow]
    have hinstances := Nat.le_of_lt (length_instances_lt p entrypoints)
    exact Nat.mul_le_mul hnodes (Nat.mul_le_mul (length_values_le p entrypoints) hinstances)
  have hcount := (List.range (p.nodes entrypoints).length).countP_le_length
    (p := fun n => (s.graph.node? n).isNone)
  have hcount' := (p.possible entrypoints).countP_le_length
    (p := fun c => decide (c.2.2 ∉ s.pointsTo.get c.1 c.2.1))
  have hsum : p.magnitude entrypoints ^ (2 * p.depth + 2) +
      p.magnitude entrypoints ^ (3 * p.depth + 4) ≤ p.magnitude entrypoints ^ (3 * p.depth + 5) :=
    pow_add_pow_le (two_le_magnitude p entrypoints) (by omega) (by omega)
  rw [List.length_range] at hcount
  rw [missing]
  omega

/-- The potential is bounded by a power of the magnitude. -/
theorem Ready.potential_lt {s : Progress} (h : Ready p entrypoints s) :
    potential p entrypoints s < p.magnitude entrypoints ^ (5 * p.depth + 10) := by
  have htwo := two_le_magnitude p entrypoints
  have hnodes := length_nodes_le p entrypoints
  have hqueue := h.length_queue_le
  have hweight : (p.nodes entrypoints).length + 1 ≤
      p.magnitude entrypoints ^ (2 * p.depth + 3) := by
    have hsum : p.magnitude entrypoints ^ 0 + p.magnitude entrypoints ^ (2 * p.depth + 2) ≤
        p.magnitude entrypoints ^ (2 * p.depth + 3) :=
      pow_add_pow_le htwo (Nat.zero_le _) (Nat.lt_succ_self _)
    rw [Nat.pow_zero] at hsum
    omega
  have hpow : p.magnitude entrypoints ^ (2 * p.depth + 3) *
      p.magnitude entrypoints ^ (3 * p.depth + 5) = p.magnitude entrypoints ^ (5 * p.depth + 8) := by
    rw [← Nat.pow_add]
    congr 1
    omega
  have hproduct := Nat.mul_le_mul hweight (missing_le p entrypoints s)
  have hsum : p.magnitude entrypoints ^ (2 * p.depth + 2) +
      p.magnitude entrypoints ^ (5 * p.depth + 8) ≤ p.magnitude entrypoints ^ (5 * p.depth + 9) :=
    pow_add_pow_le htwo (by omega) (by omega)
  have hlast : p.magnitude entrypoints ^ (5 * p.depth + 9) <
      p.magnitude entrypoints ^ (5 * p.depth + 10) := Nat.pow_lt_pow_right (by omega) (by omega)
  rw [potential]
  omega

/-! ### Failures -/

section Failures

variable {p : Plan}

/-- The provider could not give out a body, and the construction reports its error. -/
def ProviderFailed (p : Plan) (i : Interruption) : Prop :=
  ∃ m e, p.provider.request m = .error e ∧ i.error = .body e

theorem providerFailed_fetch {m : MethodRef} {s : Progress} {i : Interruption}
    (h : fetch p m s = .error i) : ProviderFailed p i := by
  rw [fetch] at h
  rcases hreq : p.provider.request m with e | _ | b
  · simp only [hreq, Except.error.injEq] at h
    subst h
    exact ⟨m, e, hreq, rfl⟩
  · simp [hreq] at h
  · simp only [hreq] at h
    by_cases hb : b ∈ s.bodies
    · simp [if_pos hb] at h
    · simp [if_neg hb] at h

theorem providerFailed_follow {result : Option ValueNumber} {args : List ValueNumber}
    {site : CallSite} {a : Progress × Bool} {t : MethodRef × Option Instance} {i : Interruption}
    (h : follow p n x result args site a t = .error i) : ProviderFailed p i := by
  rw [follow, bind_eq_error] at h
  rcases h with hfetch | ⟨⟨body?, s⟩, -, hrest⟩
  · exact providerFailed_fetch hfetch
  · -- Once the body is known, nothing can fail.
    rcases body? with _ | b
    · cases hrest
    · rcases result with _ | v
      · cases hrest
      · cases hrest

theorem providerFailed_execute {a : Progress × Bool} {ins : Instruction} {i : Interruption}
    (h : execute p n x a ins = .error i) : ProviderFailed p i := by
  cases ins with
  | new k v site line => cases h
  | invoke k result args site line =>
      obtain ⟨a', t, -, hfollow⟩ := exists_error_of_foldlM h
      exact providerFailed_follow hfollow
  | ret k v line => cases h

theorem providerFailed_process {s : Progress} {i : Interruption} (h : process p n s = .error i) :
    ProviderFailed p i := by
  rw [process] at h
  rcases hx : s.graph.node? n with _ | x
  · simp only [hx] at h
    cases h
  · simp only [hx, bind_eq_error] at h
    rcases h with hfetch | ⟨⟨body?, s₁⟩, -, hrest⟩
    · exact providerFailed_fetch hfetch
    · rcases body? with _ | b
      · cases hrest
      · rcases bind_eq_error.mp hrest with hfold | ⟨a, -, hlast⟩
        · obtain ⟨a', ins, -, hexecute⟩ := exists_error_of_foldlM hfold
          exact providerFailed_execute hexecute
        · rcases hc : a.2
          · simp only [hc] at hlast
            cases hlast
          · simp only [hc] at hlast
            cases hlast

theorem seeding_eq_error {i : Interruption}
    (h : entrypoints.zipIdx.foldlM (seedEntry p) Progress.start = .error i) :
    ProviderFailed p i ∨ ∃ m, i.error = .missingEntrypointBody m := by
  obtain ⟨s, entry, -, hseed⟩ := exists_error_of_foldlM h
  rw [seedEntry, bind_eq_error] at hseed
  rcases hseed with hfetch | ⟨⟨body?, s₁⟩, -, hrest⟩
  · exact Or.inl (providerFailed_fetch hfetch)
  · rcases body? with _ | b
    · cases hrest
      exact Or.inr ⟨entry.1, rfl⟩
    · cases hrest

theorem ProviderFailed.error_ne_unfinished {i : Interruption} (h : ProviderFailed p i) :
    i.error ≠ .unfinished := by
  obtain ⟨m, e, -, hi⟩ := h
  rw [hi]
  exact CallGraphError.noConfusion

end Failures

/-! ### The whole construction -/

/-- After seeding, the work on the queue ends within the bound, and any larger bound or none leads
    to the same end. -/
theorem run_ends_of_seeding {monitor : Monitor} (hmonitor : monitor.patience = none)
    {s₀ : Progress}
    (hseed : entrypoints.zipIdx.foldlM (seedEntry p.toPlan) Progress.start = .ok s₀) :
    ∃ monitor' ending,
      (∀ j, p.magnitude entrypoints ^ (5 * p.depth + 10) ≤ j →
        (machine p.toPlan).run j monitor s₀ = (monitor', ending)) ∧
      (machine p.toPlan).runToEnd monitor s₀ = (monitor', ending) ∧
      ((∃ s, ending = .settled s ∧ s.queue = []) ∨
        ∃ i, ending = .failed i ∧ ProviderFailed p.toPlan i) := by
  have hready := ready_of_seeding hseed
  obtain ⟨monitor', ending, hrun, hend⟩ := Worklist.Machine.iterate_ends (m := machine p.toPlan)
    (fun s n t s' hs htake hproc => Ready.turn hs htake hproc) hmonitor hready
    hready.potential_lt
  refine ⟨monitor', ending, fun j hj => Worklist.Machine.run_of_iterate hrun hj,
    Worklist.Machine.runToEnd_of_iterate hrun, ?_⟩
  rcases hend with ⟨s, hs, htake⟩ | ⟨i, n, t, hi, hproc⟩
  · exact Or.inl ⟨s, hs, take?_eq_none htake⟩
  · exact Or.inr ⟨i, hi, providerFailed_process hproc⟩

/-- A construction from finitely many bodies that is not cancelled comes to an end, whatever the
    bodies and the classes are.  After seeding, the work on the queue ends within a number of
    turns that a power of the magnitude of the input bounds: the queue is empty, or the provider
    failed to give out a body.  The construction, which works without a bound, comes to the
    same. -/
theorem build_terminates (p : FinitePlan) (entrypoints : List MethodRef) (monitor : Monitor)
    (hmonitor : monitor.patience = none) :
    (build p.toPlan entrypoints monitor).result ≠ .error .unfinished ∧
    ∀ s₀, entrypoints.zipIdx.foldlM (seedEntry p.toPlan) Progress.start = .ok s₀ →
      ∃ monitor' ending,
        (∀ j, p.magnitude entrypoints ^ (5 * p.depth + 10) ≤ j →
          (machine p.toPlan).run j monitor s₀ = (monitor', ending)) ∧
        ((∃ s, ending = .settled s ∧ s.queue = []) ∨
          ∃ i, ending = .failed i ∧ ProviderFailed p.toPlan i) ∧
        (entrypoints ≠ [] →
          build p.toPlan entrypoints monitor = conclude p.toPlan (monitor', ending)) := by
  refine ⟨?_, ?_⟩
  · intro hunfinished
    rcases entrypoints with _ | ⟨entry, entries⟩
    · cases hunfinished
    · rcases hseed : (entry :: entries).zipIdx.foldlM (seedEntry p.toPlan) Progress.start
        with i | s₀
      · rw [build, hseed] at hunfinished
        have hi : i.error = .unfinished := Except.error.inj hunfinished
        rcases seeding_eq_error hseed with hfailed | ⟨m, hmissing⟩
        · exact hfailed.error_ne_unfinished hi
        · rw [hmissing] at hi
          cases hi
      · obtain ⟨monitor', ending, -, hrun, hend⟩ := run_ends_of_seeding hmonitor hseed
        rw [build_of_seeding monitor (List.cons_ne_nil _ _) hseed, hrun] at hunfinished
        rcases hend with ⟨s, rfl, -⟩ | ⟨i, rfl, hfailed⟩
        · cases hunfinished
        · exact hfailed.error_ne_unfinished (Except.error.inj hunfinished)
  · intro s₀ hseed
    obtain ⟨monitor', ending, hbounded, hrun, hend⟩ := run_ends_of_seeding hmonitor hseed
    refine ⟨monitor', ending, hbounded, hend, ?_⟩
    intro hne
    rw [build_of_seeding monitor hne hseed, hrun]

namespace Copying

/-- The plan, with the one body that there is. -/
def finite : FinitePlan := .ofStore plan.hierarchy store 1

theorem seeded : ∃ s₀, [copy].zipIdx.foldlM (seedEntry plan) Progress.start = .ok s₀ ∧
    s₀.queue = [1] :=
  exists_ok_of_any (by decide +kernel)

/-- The method that calls itself on the cell that it allocates leaves an empty queue. -/
theorem build_terminates_copying :
    Monitor.unlimited.patience = none ∧
    (build plan [copy] .unlimited).result ≠ .error .unfinished ∧
    ∃ s₀ monitor' s, [copy].zipIdx.foldlM (seedEntry plan) Progress.start = .ok s₀ ∧
      s₀.queue = [1] ∧ s.queue = [] ∧
      (∀ j, finite.magnitude [copy] ^ 15 ≤ j →
        (machine plan).run j .unlimited s₀ = (monitor', .settled s)) ∧
      build plan [copy] .unlimited = conclude plan (monitor', .settled s) := by
  obtain ⟨hfinished, hseeded⟩ := build_terminates finite [copy] .unlimited rfl
  obtain ⟨s₀, hs₀, hqueue⟩ := seeded
  obtain ⟨monitor', ending, hrun, hend, hbuild⟩ := hseeded s₀ hs₀
  have hconclude : build plan [copy] .unlimited = conclude plan (monitor', ending) :=
    hbuild (List.cons_ne_nil _ _)
  rcases hend with ⟨s, rfl, hs⟩ | ⟨i, rfl, -⟩
  · exact ⟨rfl, hfinished, s₀, monitor', s, hs₀, hqueue, hs, hrun, hconclude⟩
  · -- The construction succeeds, and so no body was missing.
    obtain ⟨g, hg, -⟩ := built
    rw [hconclude] at hg
    cases hg

end Copying

end Construction
end StreamVerdict
