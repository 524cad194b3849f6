/-
  A settled solve is the least solution.

  Whatever a solve holds lies below every solution: this is so at the start, and a walk over a
  body takes less than a solution to less than the solution.  As a settled solve is itself a
  solution, it is the least one, and so the order in which nodes were taken from the queue
  leaves no trace in its sets.
-/
import Mathlib.Order.Bounds.Basic
import StreamVerdict.Proofs.Typestate.Runs
import StreamVerdict.Proofs.Typestate.Termination

namespace StreamVerdict
namespace Typestate

/-! ### Below a solution -/

/-- All that a solve holds and knows is in the given sets. -/
structure Below (p : Problem) (E X : Sets) (R : Set State) (s : Progress) : Prop where
  entry : ∀ m, s.entrySet m ⊆ E m
  exit : ∀ m, s.exitSet m ⊆ X m
  recorded : s.recorded p ⊆ R

namespace Below

variable {p : Problem} {E X : Sets} {R : Set State} {n : Nat} {x : Node} {C : Set State}
  {acc : Progress × OrdSet State}

/-- An action leads from states in `C` to states that `C` leads to. -/
theorem perform {i : Instruction} (h : Below p E X R acc.1) (hcurrent : acc.2.members ⊆ C)
    (hmet : afterInstruction p n x i '' C ⊆ R) :
    Below p E X R (perform p n x i acc).1 ∧
      (Typestate.perform p n x i acc).2.members ⊆ afterInstruction p n x i '' C := by
  obtain ⟨honly, hset, -, hback⟩ := perform_spec p n x i acc
  have hmoved : (Typestate.perform p n x i acc).2.members ⊆ afterInstruction p n x i '' C := by
    rw [hset]
    exact Set.image_mono hcurrent
  refine ⟨⟨?_, ?_, ?_⟩, hmoved⟩
  · rw [honly.entrySet]
    exact h.entry
  · rw [honly.exitSet]
    exact h.exit
  · exact hback.trans (Set.union_subset h.recorded (hmoved.trans hmet))

/-- Visits of called nodes stay below a solution with which they agree. -/
theorem visitCallees {cs : List Nat} (h : Below p E X R acc.1) (hcurrent : acc.2.members ⊆ C)
    (hcalls : CallsWithin E X R cs C) :
    Below p E X R (cs.foldl visitCallee acc).1 ∧
      (cs.foldl visitCallee acc).2.members ⊆ joined X cs C := by
  induction cs generalizing acc C with
  | nil => exact ⟨h, hcurrent⟩
  | cons c cs ih =>
      obtain ⟨henter, -, hrest⟩ := hcalls
      have hbelow : Below p E X R (visitCallee acc c).1 := by
        refine ⟨?_, ?_, ?_⟩
        · intro m q hq
          rcases Progress.mem_entrySet_enter.mp hq with hold | ⟨rfl, hnew⟩
          · exact h.entry m hold
          · exact henter (hcurrent hnew)
        · rw [visitCallee, Progress.exitSet_enter]
          exact h.exit
        · rw [visitCallee, Progress.recorded_enter]
          exact h.recorded
      have hmore : (visitCallee acc c).2.members ⊆ C ∪ X c := by
        rw [members_visitCallee]
        exact Set.union_subset_union hcurrent (h.exit c)
      exact ih hbelow hmore hrest

theorem leave {s : Progress} {D : OrdSet State} (h : Below p E X R s) (hD : D.members ⊆ X n) :
    Below p E X R (s.leave p.graph.graph n D) := by
  refine ⟨?_, ?_, ?_⟩
  · rw [Progress.entrySet_leave]
    exact h.entry
  · intro m q hq
    rcases Progress.mem_exitSet_leave.mp hq with hold | ⟨rfl, hnew⟩
    · exact h.exit m hold
    · exact hD hnew
  · rw [Progress.recorded_leave]
    exact h.recorded

/-- A walk over an instruction stays below a solution with which the walk agrees. -/
theorem walk {i : Instruction} {is : List Instruction} (h : Below p E X R acc.1)
    (hcurrent : acc.2.members ⊆ C) (hwalked : WalkedWithin p E X R n x (i :: is) C) :
    Below p E X R (walk p n x acc i).1 ∧ (Typestate.walk p n x acc i).2.members ⊆
      joined X (calledBy p n i) (afterInstruction p n x i '' C) := by
  obtain ⟨-, hret, hcalls, hrest⟩ := walkedWithin_cons.mp hwalked
  -- What the action leads to is met by the walk over the rest of the body.
  have hmet : afterInstruction p n x i '' C ⊆ R := (subset_joined X _ _).trans hrest.subset
  obtain ⟨hperformed, hmoved⟩ := h.perform hcurrent hmet
  obtain ⟨hcalled, hjoined⟩ := hperformed.visitCallees hmoved hcalls
  rw [walk_eq]
  by_cases hreturn : isReturn i = true
  · simp only [hreturn, if_true]
    refine ⟨hcalled.leave (hjoined.trans ?_), hjoined⟩
    rw [calledBy_eq_nil p n hreturn]
    exact (hret hreturn).1
  · simp only [hreturn, Bool.false_eq_true, if_false]
    exact ⟨hcalled, hjoined⟩

theorem walkThrough {is : List Instruction} (h : Below p E X R acc.1)
    (hcurrent : acc.2.members ⊆ C) (hwalked : WalkedWithin p E X R n x is C) :
    Below p E X R (walkThrough p n x is acc) := by
  induction is generalizing acc C with
  | nil => exact h.leave (hcurrent.trans (walkedWithin_nil.mp hwalked).1)
  | cons i is ih =>
      obtain ⟨hbelow, hjoined⟩ := h.walk hcurrent hwalked
      obtain ⟨-, -, -, hrest⟩ := walkedWithin_cons.mp hwalked
      exact ih hbelow hjoined hrest

theorem process {s : Progress} (hsolves : SolvesWithin p E X R) (h : Below p E X R s)
    (n : Nat) : Below p E X R (process p n s) := by
  rcases process_cases p n s with ⟨hsame, -⟩ | ⟨x, b, hx, hb, hprocess⟩
  · rw [hsame]
    exact h
  · rw [hprocess]
    exact walkThrough h (h.entry n) (hsolves.walks n x b hx hb)

theorem start (hsolves : SolvesWithin p E X R) : Below p E X R (start p) := by
  obtain ⟨hexit, hevents, hentry, -, -⟩ :=
    foldl_startAt_spec p p.graph.graph.entrypoints .blank
  rw [start_eq]
  refine ⟨?_, ?_, ?_⟩
  · intro m q hq
    rcases (hentry m q).mp hq with hold | ⟨hm, rfl⟩
    · exact absurd hold (OrdSet.not_mem_empty q)
    · exact hsolves.initial m hm
  · intro m q hq
    rw [Progress.exitSet, hexit] at hq
    exact absurd hq (OrdSet.not_mem_empty q)
  · rintro q (rfl | ⟨e, he, -⟩)
    · exact hsolves.initial_mem
    · rw [hevents] at he
      exact absurd he List.not_mem_nil

/-- Wherever runs lead, they stay below every solution. -/
theorem of_reaches {s : Progress} (hsolves : SolvesWithin p E X R)
    (h : Reaches p (Typestate.start p) s) : Below p E X R s := by
  induction h with
  | refl => exact start hsolves
  | @tail u _ _ hlast ih =>
      obtain ⟨n, -, rfl⟩ := hlast
      -- The queue plays no part in what lies below.
      have hrest : Below p E X R { u with queue := u.queue.erase n } :=
        ⟨ih.entry, ih.exit, ih.recorded⟩
      exact hrest.process hsolves n

end Below

/-! ### The least solution -/

/-- The least sets, by inclusion at every node, that are a solution. -/
def LeastSolution (p : Problem) (E X : Sets) : Prop :=
  IsLeast {F : Sets × Sets | Solves p F.1 F.2} (E, X)

theorem Settled.leastSolution {p : Problem} {s : Progress} (h : Settled p s) :
    LeastSolution p s.entrySet s.exitSet := by
  refine ⟨h.solvesWithin.solves, ?_⟩
  rintro ⟨E, X⟩ hsolves
  have hbelow := Below.of_reaches (Solves.within hsolves) h.reaches
  exact ⟨hbelow.entry, hbelow.exit⟩

/-- A settled solve knows exactly the states that occur. -/
theorem Settled.mem_recorded_iff {p : Problem} {s : Progress} (h : Settled p s) {q : State} :
    q ∈ s.recorded p ↔ Occurs p s.entrySet s.exitSet q := by
  constructor
  · intro hq
    exact (Below.of_reaches h.solvesWithin.solves.within h.reaches).recorded hq
  · exact h.solvesWithin.occurs_subset

theorem LeastSolution.unique {p : Problem} {E X E' X' : Sets} (h : LeastSolution p E X)
    (h' : LeastSolution p E' X') : E = E' ∧ X = X' :=
  Prod.mk.inj (IsLeast.unique h h')

/-- Every solve of an object ends, in whatever order nodes are taken from the queue, within the
    turns that it is allowed.  Where it ends, its sets are the least solution and it knows
    exactly the states that occur in it, all of them declared; so it ends with the same sets
    whatever the order.  With no cancellation and with time and room for the events it does
    succeed, and the states that a solution gives the object are those of the least solution. -/
theorem solve_least (p : Problem) (hvalid : p.protocol.error? = none) :
    -- It ends.
    (∀ k s, StepsTo p (start p) k s → k < turns p) ∧
    -- Where it ends.
    (∀ s, Settled p s → LeastSolution p s.entrySet s.exitSet ∧
      ∀ q, q ∈ s.recorded p ↔ Occurs p s.entrySet s.exitSet q) ∧
    -- It ends there in whatever order.
    (∀ s s', Settled p s → Settled p s' → s.entrySet = s'.entrySet ∧ s.exitSet = s'.exitSet ∧
      s.recorded p = s'.recorded p) ∧
    -- It succeeds.
    (∃ s, Settled p s ∧ ∀ (limits : SolverLimits) (monitor : Monitor) (earlier : Nat),
      monitor.patience = none → limits.timeoutMs ≠ 0 →
      earlier + s.events.length ≤ limits.maxFindings.toNat →
      (solveObject limits monitor earlier p).2 = .ok s.events.reverse) ∧
    -- What it says of the object.
    (∃ E X, LeastSolution p E X ∧ (∀ q, Occurs p E X q → q ∈ p.protocol.states) ∧
      ∀ limits h tracked monitor S, (solve limits p.graph h p.protocol tracked monitor).2 = .ok S →
        p.object ∈ objectsOf p.graph h tracked →
        ∀ q, q ∈ S.statesOf p.object ↔ Occurs p E X q) := by
  obtain ⟨s, hreach, hsettled⟩ := exists_settled p
  have hsame : ∀ s s', Settled p s → Settled p s' →
      s.entrySet = s'.entrySet ∧ s.exitSet = s'.exitSet ∧ s.recorded p = s'.recorded p := by
    intro s s' hs hs'
    obtain ⟨hentry, hexit⟩ := hs.leastSolution.unique hs'.leastSolution
    refine ⟨hentry, hexit, ?_⟩
    ext q
    rw [hs.mem_recorded_iff, hs'.mem_recorded_iff, hentry, hexit]
  refine ⟨?_, ?_, hsame, ?_, ?_⟩
  · intro k u hrun
    exact length_lt_turns hrun
  · intro u hu
    exact ⟨hu.leastSolution, fun q => hu.mem_recorded_iff⟩
  · refine ⟨s, hsettled, ?_⟩
    intro limits monitor earlier hpatience htime hroom
    exact solveObject_eq_of_unhindered hreach hsettled.empty hpatience htime hroom
  · refine ⟨s.entrySet, s.exitSet, hsettled.leastSolution, ?_, ?_⟩
    · intro q hq
      have hknown := hsettled.mem_recorded_iff.mpr hq
      exact Protocol.attainable_declared hvalid
        ((fits_of_reaches hsettled.reaches).recorded q hknown)
    · intro limits h tracked monitor S hsolve hobject q
      obtain ⟨u, hu, hstates⟩ := statesOf_eq_recorded hsolve hobject
      have hmem : q ∈ S.statesOf p.object ↔ q ∈ (S.statesOf p.object).members := Iff.rfl
      rw [hmem, hstates, (hsame u s hu hsettled).2.2]
      exact hsettled.mem_recorded_iff

namespace Nested

/-- The box is created and used, and the least solution has nothing beyond that. -/
theorem solve_least_nested :
    problem.protocol.error? = none ∧
    ∃ E X, LeastSolution problem E X ∧
      ∀ q, Occurs problem E X q ↔
        q ∈ [Protocol.created, Protocol.unobserved, Protocol.used] := by
  have hvalid : problem.protocol.error? = none := by decide +kernel
  obtain ⟨-, -, -, -, E, X, hleast, -, hstates⟩ := solve_least problem hvalid
  obtain ⟨S, hsolve, hlist⟩ := solved
  have hobject : created ∈ objectsOf graph hierarchy box.name := by decide +kernel
  refine ⟨hvalid, E, X, hleast, ?_⟩
  intro q
  rw [← hstates _ _ _ _ S hsolve hobject q, ← hlist]
  rfl

end Nested

end Typestate
end StreamVerdict
