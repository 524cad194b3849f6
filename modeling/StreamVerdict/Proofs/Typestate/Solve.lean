/-
  From the solve of a type to the solves of its objects.

  A solve that succeeds has settled for every object, each time by a run that takes nodes from
  the front of the queue.  The states that it gives an object are the states that the run came
  to know.
-/
import StreamVerdict.Proofs.Typestate.Solved

namespace StreamVerdict
namespace Typestate

theorem take?_eq_some {s t : Progress} {n : Nat} (h : s.take? = some (n, t)) :
    ∃ rest, s.queue = n :: rest ∧ t = { s with queue := rest } := by
  rw [Progress.take?] at h
  rcases hq : s.queue with _ | ⟨m, rest⟩
  · simp [hq] at h
  · simp only [hq, Option.some.injEq, Prod.mk.injEq] at h
    obtain ⟨rfl, rfl⟩ := h
    exact ⟨rest, rfl, rfl⟩

theorem take?_eq_none {s : Progress} (h : s.take? = none) : s.queue = [] := by
  rw [Progress.take?] at h
  rcases hq : s.queue with _ | ⟨m, rest⟩
  · rfl
  · simp [hq] at h

theorem step_of_take? {s t : Progress} {n : Nat} (p : Problem) (h : s.take? = some (n, t)) :
    Step p s (process p n t) := by
  obtain ⟨rest, hqueue, rfl⟩ := take?_eq_some h
  refine ⟨n, ?_, ?_⟩
  · rw [hqueue]
    exact List.mem_cons_self
  · rw [hqueue, List.erase_cons_head]

/-- A turn of the machine goes on if there is time and room for the events. -/
theorem machine_process_eq_ok {limits : SolverLimits} {earlier n : Nat} {p : Problem}
    {t s : Progress} :
    (machine limits earlier p).process n t = .ok s ↔
      s = process p n t ∧ limits.timeoutMs ≠ 0 ∧
        earlier + s.events.length ≤ limits.maxFindings.toNat := by
  simp only [machine]
  by_cases htime : limits.timeoutMs = 0
  · simp [htime]
  · rw [if_neg htime]
    by_cases hfindings : limits.maxFindings.toNat < earlier + (process p n t).events.length
    · rw [if_pos hfindings]
      constructor
      · intro h
        cases h
      · rintro ⟨rfl, -, hroom⟩
        omega
    · rw [if_neg hfindings, Except.ok.injEq]
      constructor
      · rintro rfl
        exact ⟨rfl, htime, by omega⟩
      · rintro ⟨rfl, -, -⟩
        rfl

theorem step_of_machine {limits : SolverLimits} {earlier : Nat} {p : Problem} {s s' : Progress}
    (h : (machine limits earlier p).Step s s') : Step p s s' := by
  obtain ⟨n, t, htake, hprocess⟩ := h
  rw [(machine_process_eq_ok.mp hprocess).1]
  exact step_of_take? p htake

theorem reaches_of_machine {limits : SolverLimits} {earlier : Nat} {p : Problem}
    {s s' : Progress} (h : (machine limits earlier p).Reaches s s') : Reaches p s s' :=
  Relation.ReflTransGen.mono (fun _ _ => step_of_machine) _ _ h

/-- The solve of an object succeeds only by a run that settles. -/
theorem run_of_solveObject {limits : SolverLimits} {monitor : Monitor} {earlier : Nat}
    {p : Problem} {events : List Event}
    (h : (solveObject limits monitor earlier p).2 = .ok events) :
    ∃ s, (machine limits earlier p).run (turns p) monitor (start p) =
        ((solveObject limits monitor earlier p).1, .settled s) ∧ events = s.events.reverse := by
  rw [solveObject] at h ⊢
  rcases hrun : (machine limits earlier p).run (turns p) monitor (start p) with ⟨m, ending⟩
  rw [hrun] at h
  cases ending with
  | settled s =>
      cases h
      exact ⟨s, rfl, rfl⟩
  | cancelled reason s => cases h
  | failed e => cases h
  | unfinished s => cases h

/-- The solve of an object that succeeds has run until the queue was empty. -/
theorem settled_of_solveObject {limits : SolverLimits} {monitor : Monitor} {earlier : Nat}
    {p : Problem} {events : List Event}
    (h : (solveObject limits monitor earlier p).2 = .ok events) :
    ∃ s, Settled p s ∧ events = s.events.reverse := by
  obtain ⟨s, hrun, hevents⟩ := run_of_solveObject h
  obtain ⟨hreach, hend⟩ := Worklist.Machine.reaches_of_run hrun
  exact ⟨s, ⟨reaches_of_machine hreach, take?_eq_none hend⟩, hevents⟩

/-- What is said of a tracked object comes from its solve. -/
def TrackedBySolve (g : BuiltGraph) (p : Protocol) (t : Tracked) : Prop :=
  ∃ s, Settled ⟨g, p, t.object⟩ s ∧ t.states.members = s.recorded ⟨g, p, t.object⟩

theorem trackedBySolve_of_solveObject {limits : SolverLimits} {monitor : Monitor} {earlier : Nat}
    {g : BuiltGraph} {p : Protocol} {i : Instance} {events : List Event}
    (h : (solveObject limits monitor earlier ⟨g, p, i⟩).2 = .ok events) :
    TrackedBySolve g p ⟨i, OrdSet.ofList (p.initial :: events.map Event.target)⟩ := by
  obtain ⟨s, hsettled, rfl⟩ := settled_of_solveObject h
  refine ⟨s, hsettled, ?_⟩
  ext q
  show q ∈ OrdSet.ofList (p.initial :: s.events.reverse.map Event.target) ↔ _
  rw [OrdSet.mem_ofList, List.mem_cons, List.mem_map]
  simp only [List.mem_reverse]
  rfl

/-- Solving objects one after the other tracks each of them by its solve. -/
theorem solveAll_spec {limits : SolverLimits} {g : BuiltGraph} {p : Protocol}
    {is : List Instance} {monitor : Monitor} {S S' : Solution}
    (h : (solveAll limits g p is monitor S).2 = .ok S')
    (hS : ∀ t ∈ S.tracked, TrackedBySolve g p t) :
    (∀ t ∈ S'.tracked, TrackedBySolve g p t) ∧ (∀ t ∈ S.tracked, t ∈ S'.tracked) ∧
      ∀ i ∈ is, ∃ t ∈ S'.tracked, t.object = i := by
  induction is generalizing monitor S with
  | nil =>
      cases h
      exact ⟨hS, fun _ ht => ht, fun i hi => absurd hi List.not_mem_nil⟩
  | cons i is ih =>
      rw [solveAll] at h
      rcases hsolve : solveObject limits monitor S.events.length ⟨g, p, i⟩ with ⟨m, e | events⟩
      · rw [hsolve] at h
        cases h
      · rw [hsolve] at h
        have htracked := trackedBySolve_of_solveObject (congrArg Prod.snd hsolve)
        obtain ⟨hall, hkeep, heach⟩ := ih h (by
          intro t ht
          rcases List.mem_append.mp ht with hold | hnew
          · exact hS t hold
          · rw [List.mem_singleton.mp hnew]
            exact htracked)
        refine ⟨hall, ?_, ?_⟩
        · intro t ht
          exact hkeep t (List.mem_append.mpr (Or.inl ht))
        · intro j hj
          rcases List.mem_cons.mp hj with rfl | hj
          · exact ⟨_, hkeep _ (List.mem_append.mpr (Or.inr (List.mem_singleton.mpr rfl))), rfl⟩
          · exact heach j hj

/-- Where one solve succeeds, the protocol is valid and the type known.  Every other solve then
    comes to solving the objects. -/
theorem solve_eq_solveAll {limits : SolverLimits} {g : BuiltGraph} {h : Hierarchy} {p : Protocol}
    {tracked : TypeName} {monitor : Monitor} {S : Solution}
    (hsolve : (solve limits g h p tracked monitor).2 = .ok S) (limits' : SolverLimits) :
    solve limits' g h p tracked =
      fun monitor => solveAll limits' g p (objectsOf g h tracked) monitor ⟨p.name, [], []⟩ := by
  funext monitor'
  rw [solve] at hsolve ⊢
  rcases herror : p.error? with _ | e
  · simp only [herror] at hsolve ⊢
    by_cases hknown : h.contains tracked = false
    · rw [if_pos hknown] at hsolve
      cases hsolve
    · rw [if_neg hknown]
  · simp [herror] at hsolve

/-- A solve that succeeds tracks every object of the type, each by its solve. -/
theorem solve_spec {limits : SolverLimits} {g : BuiltGraph} {h : Hierarchy} {p : Protocol}
    {tracked : TypeName} {monitor : Monitor} {S : Solution}
    (hsolve : (solve limits g h p tracked monitor).2 = .ok S) :
    (∀ t ∈ S.tracked, TrackedBySolve g p t) ∧
      ∀ i ∈ objectsOf g h tracked, ∃ t ∈ S.tracked, t.object = i := by
  rw [solve_eq_solveAll hsolve] at hsolve
  obtain ⟨hall, -, heach⟩ := solveAll_spec hsolve fun t ht => absurd ht List.not_mem_nil
  exact ⟨hall, heach⟩

/-- An object is looked up by its first entry, which may be another one than the given. -/
theorem exists_statesOf_eq {S : Solution} {t : Tracked} (ht : t ∈ S.tracked) :
    ∃ u ∈ S.tracked, u.object = t.object ∧ S.statesOf t.object = u.states := by
  rcases hfind : S.tracked.find? fun u => u.object = t.object with _ | u
  · rw [List.find?_eq_none] at hfind
    exact absurd (decide_eq_true rfl) (hfind t ht)
  · have hsame : u.object = t.object := by simpa using List.find?_some hfind
    refine ⟨u, List.mem_of_find?_eq_some hfind, hsame, ?_⟩
    rw [Solution.statesOf, hfind]
    rfl

/-- The states of an object in a solution are those that its solve came to know. -/
theorem statesOf_eq_recorded {limits : SolverLimits} {g : BuiltGraph} {h : Hierarchy}
    {p : Protocol} {tracked : TypeName} {monitor : Monitor} {S : Solution}
    (hsolve : (solve limits g h p tracked monitor).2 = .ok S) {i : Instance}
    (hi : i ∈ objectsOf g h tracked) :
    ∃ s, Settled ⟨g, p, i⟩ s ∧ (S.statesOf i).members = s.recorded ⟨g, p, i⟩ := by
  obtain ⟨hall, heach⟩ := solve_spec hsolve
  obtain ⟨t, ht, rfl⟩ := heach i hi
  obtain ⟨u, hu, hsame, hstates⟩ := exists_statesOf_eq ht
  obtain ⟨s, hsettled, hrecorded⟩ := hall u hu
  rw [hsame] at hsettled hrecorded
  rw [hstates]
  exact ⟨s, hsettled, hrecorded⟩

/-! ### Monitors -/

section Monitors

variable {limits : SolverLimits} {g : BuiltGraph} {p : Protocol} {monitor free : Monitor}

/-- A monitor that never cancels is one after the solve of an object, too. -/
theorem patience_of_solveObject {earlier : Nat} {q : Problem} (h : monitor.patience = none) :
    (solveObject limits monitor earlier q).1.patience = none := by
  have hpatience := (machine limits earlier q).patience_of_run (turns q) h (start q)
  rw [solveObject]
  rcases hrun : (machine limits earlier q).run (turns q) monitor (start q) with ⟨m, ending⟩
  rw [hrun] at hpatience
  cases ending <;> exact hpatience

/-- A monitor can do nothing to the solve of an object but cancel it. -/
theorem solveObject_monitored (limits : SolverLimits) (earlier : Nat) (q : Problem)
    (monitor : Monitor) (hfree : free.patience = none) :
    (solveObject limits monitor earlier q).2 = (solveObject limits free earlier q).2 ∨
      monitor.patience ≠ none ∧
        ∃ reason, (solveObject limits monitor earlier q).2 = .error (.cancelled reason) := by
  simp only [solveObject]
  rcases hrun : (machine limits earlier q).run (turns q) monitor (start q) with ⟨m, ending⟩
  rcases hrun' : (machine limits earlier q).run (turns q) free (start q) with ⟨m', ending'⟩
  rcases (machine limits earlier q).run_monitored (turns q) monitor hfree (start q) with
    hsame | ⟨hpatience, reason, t, hcancelled⟩
  · rw [hrun, hrun'] at hsame
    obtain rfl : ending = ending' := hsame
    cases ending <;> exact Or.inl rfl
  · rw [hrun] at hcancelled
    obtain rfl : ending = .cancelled reason t := hcancelled
    exact Or.inr ⟨hpatience, reason, rfl⟩

theorem solveAll_monitored (is : List Instance) (monitor : Monitor) (S : Solution)
    (hfree : free.patience = none) :
    (solveAll limits g p is monitor S).2 = (solveAll limits g p is free S).2 ∨
      monitor.patience ≠ none ∧
        ∃ reason, (solveAll limits g p is monitor S).2 = .error (.cancelled reason) := by
  induction is generalizing monitor free S with
  | nil => exact Or.inl rfl
  | cons i is ih =>
      have hpatience : monitor.patience = none →
          (solveObject limits monitor S.events.length ⟨g, p, i⟩).1.patience = none :=
        patience_of_solveObject
      have hpatience' : (solveObject limits free S.events.length ⟨g, p, i⟩).1.patience = none :=
        patience_of_solveObject hfree
      have hobject := solveObject_monitored limits S.events.length ⟨g, p, i⟩ monitor hfree
      rw [solveAll, solveAll]
      generalize solveObject limits monitor S.events.length ⟨g, p, i⟩ = r at hpatience hobject ⊢
      generalize solveObject limits free S.events.length ⟨g, p, i⟩ = r' at hpatience' hobject ⊢
      obtain ⟨m, result⟩ := r
      obtain ⟨m', result'⟩ := r'
      rcases hobject with hsame | ⟨hnot, reason, hcancelled⟩
      · obtain rfl : result = result' := hsame
        cases result with
        | error e => exact Or.inl rfl
        | ok events =>
            -- The next object is solved with what is left of the patience.
            rcases ih m _ hpatience' with hsame | ⟨hnot, hcancelled⟩
            · exact Or.inl hsame
            · exact Or.inr ⟨fun hnone => hnot (hpatience hnone), hcancelled⟩
      · obtain rfl : result = .error (.cancelled reason) := hcancelled
        exact Or.inr ⟨hnot, reason, rfl⟩

/-- A monitor can do nothing to a solve but cancel it. -/
theorem solve_monitored (limits : SolverLimits) (g : BuiltGraph) (h : Hierarchy) (p : Protocol)
    (tracked : TypeName) (monitor : Monitor) (hfree : free.patience = none) :
    (solve limits g h p tracked monitor).2 = (solve limits g h p tracked free).2 ∨
      monitor.patience ≠ none ∧
        ∃ reason, (solve limits g h p tracked monitor).2 = .error (.cancelled reason) := by
  rw [solve, solve]
  rcases p.error? with _ | e
  · by_cases hknown : h.contains tracked = false
    · simp only [if_pos hknown]
      exact Or.inl trivial
    · simp only [if_neg hknown]
      exact solveAll_monitored _ monitor _ hfree
  · exact Or.inl rfl

/-- Without cancellation what a solve comes to does not depend on the monitor. -/
theorem solve_unmonitored (limits : SolverLimits) (g : BuiltGraph) (h : Hierarchy) (p : Protocol)
    (tracked : TypeName) (hmonitor : monitor.patience = none) (hfree : free.patience = none) :
    (solve limits g h p tracked monitor).2 = (solve limits g h p tracked free).2 := by
  rcases solve_monitored limits g h p tracked monitor hfree with hsame | ⟨hnot, -⟩
  · exact hsame
  · exact absurd hmonitor hnot

/-- A solution under some monitor is the solution under every other that does not cancel. -/
theorem solve_result_of_ok {h : Hierarchy} {tracked : TypeName} {S : Solution}
    (hsolve : (solve limits g h p tracked monitor).2 = .ok S) (hfree : free.patience = none) :
    (solve limits g h p tracked free).2 = .ok S := by
  rcases solve_monitored limits g h p tracked monitor hfree with hsame | ⟨-, reason, hcancelled⟩
  · exact hsame ▸ hsolve
  · rw [hcancelled] at hsolve
    cases hsolve

end Monitors

end Typestate
end StreamVerdict
