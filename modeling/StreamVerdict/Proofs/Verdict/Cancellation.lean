/-
  Cancelled work leaves nothing behind.

  The construction of a call graph asks its monitor once for every node that it processes, and so
  does the solve of a type, over all objects of the type.  Both are metered by the nodes that
  they process: a monitor with patience for all of them gets the whole result, and a monitor
  with less gets none, after as many units of work as it had patience for.
-/
import StreamVerdict.Proofs.CallGraph.Determinacy
import StreamVerdict.Proofs.Data.Metering
import StreamVerdict.Proofs.Typestate.Lifecycle

namespace StreamVerdict

open Worklist

/-! ### Call graphs -/

namespace Construction

variable {p : Plan} {entrypoints : List MethodRef} {k : Nat} {g : BuiltGraph}

/-- The work of a construction, as its monitor and its result. -/
def metered (p : Plan) (entrypoints : List MethodRef) (monitor : Monitor) :
    Monitor × Except CallGraphError BuiltGraph :=
  ((build p entrypoints monitor).monitor, (build p entrypoints monitor).result)

/-- After seeding, `k` nodes are processed until the queue is empty, and `g` is what is there. -/
structure ProcessesNodes (p : Plan) (entrypoints : List MethodRef) (k : Nat) (g : BuiltGraph) :
    Prop where
  nonempty : entrypoints ≠ []
  run : ∃ s₀ s, entrypoints.zipIdx.foldlM (seedEntry p) Progress.start = .ok s₀ ∧
    (machine p).Processes k s₀ s ∧ s.queue = [] ∧ g = ⟨s.graph, s.pointsTo, s.bodies, p.depth⟩

/-- A graph that is built without cancellation is built by processing some number of nodes, and
    the construction is metered by that number. -/
theorem metered_of_build (h : (build p entrypoints .unlimited).result = .ok g) :
    ∃ k, ProcessesNodes p entrypoints k g ∧ Metered (metered p entrypoints) .cancelled k g := by
  have hne : entrypoints ≠ [] := by
    rintro rfl
    cases h
  rcases build_cases p entrypoints with ⟨e, requests, hfail⟩ | ⟨s₀, hseed, hbuild⟩
  · rw [hfail] at h
    cases h
  · rw [hbuild] at h
    rcases hrun : (machine p).runToEnd .unlimited s₀ with ⟨monitor', ending⟩
    rw [hrun] at h
    cases ending with
    | settled s =>
        obtain ⟨turns, hturns⟩ := (machine p).exists_run_of_runToEnd .unlimited s₀
        obtain ⟨k, hk, hprocesses, hend⟩ := Machine.processes_of_run (hturns.symm.trans hrun)
        cases h
        refine ⟨k, ⟨hne, s₀, s, hseed, hprocesses, take?_eq_none hend, rfl⟩, ?_, ?_⟩
        · intro monitor hlasts
          have hthrough := Machine.runToEnd_of_run
            (Machine.run_through hprocesses hend hk hlasts) (by rintro t ⟨⟩)
          rw [metered, hbuild, hthrough]
          rfl
        · intro monitor n hn hnk
          obtain ⟨t, hrest⟩ := Machine.run_cut hprocesses (Nat.lt_trans hnk hk) hn hnk
          have hcut := Machine.runToEnd_of_run hrest (by rintro t ⟨⟩)
          rw [metered, hbuild, hcut]
          rfl
    | cancelled reason s => cases h
    | failed i => cases h
    | unfinished s => cases h

end Construction

/-! ### Solves -/

namespace Typestate

variable {limits : SolverLimits} {g : BuiltGraph} {p : Protocol}

/-- Objects are solved one after the other, each by processing nodes until its queue is empty;
    `k` is the number of nodes that are processed for all of them. -/
inductive SolvesObjects (limits : SolverLimits) (g : BuiltGraph) (p : Protocol) :
    List Instance → Solution → Nat → Solution → Prop where
  | nil (S : Solution) : SolvesObjects limits g p [] S 0 S
  | cons {i : Instance} {is : List Instance} {S S' : Solution} {k l : Nat} {s : Progress}
      (hrun : (machine limits S.events.length ⟨g, p, i⟩).Processes k (start ⟨g, p, i⟩) s)
      (hend : s.queue = [])
      (hrest : SolvesObjects limits g p is
        { S with
          tracked := S.tracked ++
            [⟨i, OrdSet.ofList (p.initial :: s.events.reverse.map Event.target)⟩]
          events := S.events ++ s.events.reverse } l S') :
      SolvesObjects limits g p (i :: is) S (k + l) S'

/-- The solve of an object that succeeds without cancellation is metered by the nodes that it
    processes. -/
theorem metered_of_solveObject {earlier : Nat} {q : Problem} {free : Monitor}
    {events : List Event} (h : (solveObject limits free earlier q).2 = .ok events) :
    ∃ k s, (machine limits earlier q).Processes k (start q) s ∧ s.queue = [] ∧
      events = s.events.reverse ∧
      Metered (fun monitor => solveObject limits monitor earlier q) .cancelled k events := by
  obtain ⟨s, hrun, rfl⟩ := run_of_solveObject h
  obtain ⟨k, hk, hprocesses, hend⟩ := Machine.processes_of_run hrun
  refine ⟨k, s, hprocesses, take?_eq_none hend, rfl, ?_, ?_⟩
  · intro monitor hlasts
    rw [solveObject, Machine.run_through hprocesses hend hk hlasts]
  · intro monitor n hn hnk
    obtain ⟨t, hcut⟩ := Machine.run_cut hprocesses (Nat.lt_trans hnk hk) hn hnk
    rw [solveObject, hcut]

/-- The nodes that are processed for one object count before those for the next. -/
theorem metered_of_solveAll {is : List Instance} {free : Monitor} {S S' : Solution}
    (hfree : free.patience = none) (h : (solveAll limits g p is free S).2 = .ok S') :
    ∃ k, SolvesObjects limits g p is S k S' ∧
      Metered (fun monitor => solveAll limits g p is monitor S) .cancelled k S' := by
  induction is generalizing free S with
  | nil =>
      cases h
      refine ⟨0, SolvesObjects.nil _, ?_, ?_⟩
      · intro monitor _
        rw [solveAll, Monitor.spend_zero]
      · intro monitor n _ hn
        omega
  | cons i is ih =>
      have hpatience : (solveObject limits free S.events.length ⟨g, p, i⟩).1.patience = none :=
        patience_of_solveObject hfree
      rw [solveAll] at h
      rcases hsolve : solveObject limits free S.events.length ⟨g, p, i⟩ with ⟨free', e | events⟩
      · rw [hsolve] at h
        cases h
      · rw [hsolve] at h hpatience
        obtain ⟨k, s, hprocesses, hend, rfl, hobject⟩ :=
          metered_of_solveObject (congrArg Prod.snd hsolve)
        obtain ⟨l, hrest, hothers⟩ := ih hpatience h
        refine ⟨k + l, SolvesObjects.cons hprocesses hend hrest, ?_, ?_⟩
        · intro monitor hlasts
          have hfirst := hobject.through monitor (hlasts.of_le (Nat.le_add_right k l))
          have hlast := hothers.through (monitor.spend k) (Monitor.lasts_spend hlasts)
          rw [Monitor.spend_spend] at hlast
          simp only [solveAll, hfirst]
          exact hlast
        · intro monitor n hn hnkl
          by_cases hnk : n < k
          · have hfirst := hobject.cut monitor n hn hnk
            simp only [solveAll, hfirst]
          · -- The patience lasts for this object and runs out at a later one.
            have hlasts : monitor.Lasts k := by
              intro n' hn'
              rw [hn] at hn'
              have := Option.some.inj hn'
              omega
            have hleft : (monitor.spend k).patience = some (n - k) := by
              rw [Monitor.spend, hn]
              rfl
            have hfirst := hobject.through monitor hlasts
            have hlast := hothers.cut (monitor.spend k) (n - k) hleft (by omega)
            rw [Monitor.spend_spend, Monitor.spend_reason,
              (by omega : k + (n - k) = n)] at hlast
            simp only [solveAll, hfirst]
            exact hlast

/-- A solve that succeeds without cancellation is metered by the nodes that it processes for all
    objects of the type. -/
theorem metered_of_solve {h : Hierarchy} {tracked : TypeName} {S : Solution}
    (hsolve : (solve limits g h p tracked .unlimited).2 = .ok S) :
    ∃ k, SolvesObjects limits g p (objectsOf g h tracked) ⟨p.name, [], []⟩ k S ∧
      Metered (solve limits g h p tracked) .cancelled k S := by
  have hsame := solve_eq_solveAll hsolve limits
  rw [hsame] at hsolve ⊢
  exact metered_of_solveAll rfl hsolve

end Typestate

/-! ### All or nothing -/

namespace Cancellation

/-- What is built or solved without cancellation takes some number of units of work, one for each
    node that is processed.  A monitor that goes on at least that often gets the same graph or
    solution, and is told of that number of units.  A monitor that goes on less often gets an
    error that names its reason and nothing else, and is told of as many units as it went on
    for. -/
theorem all_or_nothing :
    (∀ (plan : Construction.Plan) (entrypoints : List MethodRef) (g : BuiltGraph),
      (Construction.build plan entrypoints .unlimited).result = .ok g →
      ∃ k, Construction.ProcessesNodes plan entrypoints k g ∧
        (Construction.build plan entrypoints .unlimited).monitor.work = k ∧
        ∀ n reason,
          (k ≤ n →
            (Construction.build plan entrypoints ⟨some n, reason, 0⟩).result = .ok g ∧
            (Construction.build plan entrypoints ⟨some n, reason, 0⟩).monitor.work = k) ∧
          (n < k →
            (Construction.build plan entrypoints ⟨some n, reason, 0⟩).result =
              .error (.cancelled reason) ∧
            (Construction.build plan entrypoints ⟨some n, reason, 0⟩).monitor.work = n)) ∧
    (∀ (limits : SolverLimits) (g : BuiltGraph) (h : Hierarchy) (p : Protocol)
        (tracked : TypeName) (S : Solution),
      (Typestate.solve limits g h p tracked .unlimited).2 = .ok S →
      ∃ k, Typestate.SolvesObjects limits g p (Typestate.objectsOf g h tracked)
          ⟨p.name, [], []⟩ k S ∧
        (Typestate.solve limits g h p tracked .unlimited).1.work = k ∧
        ∀ n reason,
          (k ≤ n →
            (Typestate.solve limits g h p tracked ⟨some n, reason, 0⟩).2 = .ok S ∧
            (Typestate.solve limits g h p tracked ⟨some n, reason, 0⟩).1.work = k) ∧
          (n < k →
            (Typestate.solve limits g h p tracked ⟨some n, reason, 0⟩).2 =
              .error (.cancelled reason) ∧
            (Typestate.solve limits g h p tracked ⟨some n, reason, 0⟩).1.work = n)) := by
  refine ⟨?_, ?_⟩
  · intro plan entrypoints g hbuild
    obtain ⟨k, hnodes, hmetered⟩ := Construction.metered_of_build hbuild
    exact ⟨k, hnodes, hmetered.unlimited, hmetered.limited⟩
  · intro limits g h p tracked S hsolve
    obtain ⟨k, hobjects, hmetered⟩ := Typestate.metered_of_solve hsolve
    exact ⟨k, hobjects, hmetered.unlimited, hmetered.limited⟩

namespace Handed

open Typestate Typestate.Handed

/-- How many nodes are processed: for the graph, and for the two boxes together. -/
theorem units : ∃ g,
    (Construction.build (plan "use") [main] { patience := some 9 }).result = .ok g ∧
    (Construction.build (plan "use") [main] { patience := some 9 }).monitor.work = 3 ∧
    (objectsOf g (hierarchy "use") (box "use").name).length = 2 ∧
    (solve {} g (hierarchy "use") .eventTracking (box "use").name .unlimited).1.work = 8 ∧
    (solve {} g (hierarchy "use") .eventTracking (box "use").name
      .unlimited).2.toOption.isSome = true :=
  exists_ok_of_any (by decide +kernel)

/-- The graph is built with patience for three nodes and not for two; and patience for five of
    the eight nodes of the solve runs out at the second box. -/
theorem all_or_nothing_handed :
    ∃ g S, (Construction.build (plan "use") [main] .unlimited).result = .ok g ∧
      (Construction.build (plan "use") [main] ⟨some 3, "stop", 0⟩).result = .ok g ∧
      (Construction.build (plan "use") [main] ⟨some 2, "stop", 0⟩).result =
        .error (.cancelled "stop") ∧
      (objectsOf g (hierarchy "use") (box "use").name).length = 2 ∧
      (solve {} g (hierarchy "use") .eventTracking (box "use").name .unlimited).2 = .ok S ∧
      (solve {} g (hierarchy "use") .eventTracking (box "use").name
        ⟨some 8, "stop", 0⟩).2 = .ok S ∧
      (solve {} g (hierarchy "use") .eventTracking (box "use").name
        ⟨some 5, "stop", 0⟩).2 = .error (.cancelled "stop") ∧
      (solve {} g (hierarchy "use") .eventTracking (box "use").name
        ⟨some 5, "stop", 0⟩).1.work = 5 := by
  obtain ⟨hbuilds, hsolves⟩ := all_or_nothing
  obtain ⟨g, hpatient, hnodes, hobjects, hunits, hsome⟩ := units
  have hg : (Construction.build (plan "use") [main] .unlimited).result = .ok g :=
    Construction.build_result_of_ok hpatient rfl
  obtain ⟨k, -, -, hlimited⟩ := hbuilds (plan "use") [main] g hg
  obtain rfl : k = 3 := by
    rcases Nat.lt_or_ge 9 k with hlt | hle
    · have hcancelled := ((hlimited 9 "cancelled").2 hlt).1
      rw [hpatient] at hcancelled
      cases hcancelled
    · exact ((hlimited 9 "cancelled").1 hle).2.symm.trans hnodes
  rcases hS : (solve {} g (hierarchy "use") .eventTracking (box "use").name .unlimited).2 with
    e | S
  · rw [hS] at hsome
    cases hsome
  · obtain ⟨l, -, hl, hcut⟩ := hsolves _ _ _ _ _ S hS
    obtain rfl : l = 8 := hl.symm.trans hunits
    obtain ⟨hshort, hwork⟩ := (hcut 5 "stop").2 (by decide)
    exact ⟨g, S, hg, ((hlimited 3 "stop").1 (by decide)).1,
      ((hlimited 2 "stop").2 (by decide)).1, hobjects, hS, ((hcut 8 "stop").1 (by decide)).1,
      hshort, hwork⟩

end Handed

end Cancellation
end StreamVerdict
