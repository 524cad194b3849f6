/-
  What a call graph is determined by.

  A construction fails at once, or it works on the queue after seeding.  How that work ends does
  not depend on the monitor unless the monitor cancels: it decides whether there is a graph, but
  not which.
-/
import StreamVerdict.CallGraph.Library
import StreamVerdict.Proofs.Data.Fold
import StreamVerdict.Proofs.Data.Worklist

namespace StreamVerdict
namespace Construction

variable {p : Plan} {entrypoints : List MethodRef} {monitor free : Monitor}

theorem conclude_monitor (p : Plan) (r : Monitor × Worklist.Ending Progress Interruption) :
    (conclude p r).monitor = r.1 := by
  rcases r with ⟨monitor, _ | _ | _ | _⟩ <;> rfl

/-- What a construction comes to depends on how the work ended, and not on the monitor. -/
theorem conclude_result (p : Plan) {r r' : Monitor × Worklist.Ending Progress Interruption}
    (h : r.2 = r'.2) : (conclude p r).result = (conclude p r').result := by
  obtain ⟨monitor, ending⟩ := r
  obtain ⟨monitor', ending'⟩ := r'
  obtain rfl : ending = ending' := h
  cases ending <;> rfl

theorem build_nil (p : Plan) (monitor : Monitor) :
    build p [] monitor = ⟨.error .noEntrypoints, monitor, []⟩ := by
  rw [build]
  exact if_pos rfl

theorem build_of_seeding (monitor : Monitor) {s₀ : Progress} (hne : entrypoints ≠ [])
    (hseed : entrypoints.zipIdx.foldlM (seedEntry p) Progress.start = .ok s₀) :
    build p entrypoints monitor = conclude p ((machine p).runToEnd monitor s₀) := by
  have hnonempty : ¬ entrypoints.isEmpty = true := by
    rw [List.isEmpty_iff]
    exact hne
  rw [build, if_neg hnonempty, hseed]

/-- A construction fails at once, or it works on the queue after seeding. -/
theorem build_cases (p : Plan) (entrypoints : List MethodRef) :
    (∃ e requests, ∀ monitor, build p entrypoints monitor = ⟨.error e, monitor, requests⟩) ∨
    ∃ s₀, entrypoints.zipIdx.foldlM (seedEntry p) Progress.start = .ok s₀ ∧
      ∀ monitor, build p entrypoints monitor =
        conclude p ((machine p).runToEnd monitor s₀) := by
  by_cases hne : entrypoints = []
  · subst hne
    exact Or.inl ⟨.noEntrypoints, [], build_nil p⟩
  · rcases hseed : entrypoints.zipIdx.foldlM (seedEntry p) Progress.start with i | s₀
    · refine Or.inl ⟨i.error, i.requests.reverse, fun monitor => ?_⟩
      rw [build, if_neg (by simpa using hne), hseed]
    · exact Or.inr ⟨s₀, rfl, fun monitor => build_of_seeding monitor hne hseed⟩

/-- A monitor that never cancels is one after a construction, too. -/
theorem patience_of_build (h : monitor.patience = none) :
    (build p entrypoints monitor).monitor.patience = none := by
  rcases build_cases p entrypoints with ⟨e, requests, hfail⟩ | ⟨s₀, -, hrun⟩
  · rw [hfail]
    exact h
  · rw [hrun, conclude_monitor]
    exact (machine p).patience_of_runToEnd h s₀

/-- A monitor can do nothing to a construction but cancel it. -/
theorem build_monitored (p : Plan) (entrypoints : List MethodRef) (monitor : Monitor)
    (hfree : free.patience = none) :
    (build p entrypoints monitor).result = (build p entrypoints free).result ∨
      monitor.patience ≠ none ∧
        ∃ reason, (build p entrypoints monitor).result = .error (.cancelled reason) := by
  rcases build_cases p entrypoints with ⟨e, requests, hfail⟩ | ⟨s₀, -, hrun⟩
  · rw [hfail, hfail]
    exact Or.inl rfl
  · rw [hrun, hrun]
    rcases (machine p).runToEnd_monitored monitor hfree s₀ with
      hsame | ⟨hpatience, reason, t, hcancelled⟩
    · exact Or.inl (conclude_result p hsame)
    · have hresult : (conclude p ((machine p).runToEnd monitor s₀)).result =
          (conclude p (monitor, .cancelled reason t)).result := conclude_result p hcancelled
      exact Or.inr ⟨hpatience, reason, hresult⟩

/-- A graph that was built under some monitor is built under every other that does not cancel. -/
theorem build_result_of_ok {g : BuiltGraph} (h : (build p entrypoints monitor).result = .ok g)
    (hfree : free.patience = none) : (build p entrypoints free).result = .ok g := by
  rcases build_monitored p entrypoints monitor hfree with hsame | ⟨-, reason, hcancelled⟩
  · exact hsame ▸ h
  · rw [hcancelled] at h
    cases h

/-- A construction that is not cancelled comes to the same for any monitors. -/
theorem build_unmonitored (hmonitor : monitor.patience = none) (hfree : free.patience = none) :
    (build p entrypoints monitor).result = (build p entrypoints free).result := by
  rcases build_monitored p entrypoints monitor hfree with hsame | ⟨hnot, -⟩
  · exact hsame
  · exact absurd hmonitor hnot

/-- A graph that is built with patience for some nodes is built without any limit. -/
theorem exists_built_of_any {P : BuiltGraph → Prop} [DecidablePred P] (k : Nat)
    (h : ((build p entrypoints { patience := some k }).result.toOption.any fun g =>
      decide (P g)) = true) :
    ∃ g, (build p entrypoints .unlimited).result = .ok g ∧ P g := by
  obtain ⟨g, hg, hP⟩ := exists_ok_of_any h
  exact ⟨g, build_result_of_ok hg rfl, hP⟩

end Construction

/-! ### Requests to a library -/

namespace GraphLibrary

theorem requestFrom_fst (l : GraphLibrary) (source : Source) (entrypoints : List MethodRef)
    (depth : Nat) (monitor : Monitor) :
    (l.requestFrom source entrypoints depth monitor).1 =
      match l.graphs.lookup (key entrypoints depth) with
      | some g => ⟨.ok g, monitor, []⟩
      | none => source (key entrypoints depth).entrypoints.toList monitor := by
  rw [requestFrom]
  rcases l.graphs.lookup (key entrypoints depth) with _ | g
  · rcases hresult : (source (key entrypoints depth).entrypoints.toList monitor).result with e | g
    · simp only [hresult]
    · simp only [hresult]
  · rfl

/-- A graph that is given out under some monitor is given out under every other that does not
    cancel, and leaves it one that does not. -/
theorem request_of_ok {l : GraphLibrary} {p : Construction.Plan} {entrypoints : List MethodRef}
    {monitor free : Monitor} {g : BuiltGraph}
    (h : (l.request p entrypoints monitor).1.result = .ok g) (hfree : free.patience = none) :
    (l.request p entrypoints free).1.result = .ok g ∧
      (l.request p entrypoints free).1.monitor.patience = none := by
  rw [request, requestFrom_fst] at h ⊢
  rcases hlookup : l.graphs.lookup (key entrypoints p.depth) with _ | kept
  · rw [hlookup] at h
    exact ⟨Construction.build_result_of_ok h hfree, Construction.patience_of_build hfree⟩
  · rw [hlookup] at h
    exact ⟨h, hfree⟩

end GraphLibrary
end StreamVerdict
