/-
  The budget of findings is a threshold.

  The budget is compared with the number of events after every node.  It does not change what is
  done with a node, and no event is ever lost.  So two solves with different budgets do the same,
  turn by turn, until the events are more than the smaller budget allows; a solve whose budget
  has room for all events never comes to that, and any other does.
-/
import StreamVerdict.Proofs.Typestate.Lifecycle

namespace StreamVerdict
namespace Typestate

open Worklist

section

variable {limits : SolverLimits} {m : UInt64} {earlier k : Nat} {p : Problem}
  {monitor monitor' : Monitor} {s s' : Progress}

/-! ### One turn -/

/-- A turn whose events have room under another budget is the same there. -/
theorem turn_within (h : (machine limits earlier p).turn (monitor, s) = .inl (monitor', s'))
    (hroom : earlier + s'.events.length ≤ m.toNat) :
    (machine { limits with maxFindings := m } earlier p).turn (monitor, s) =
      .inl (monitor', s') := by
  obtain ⟨n, t, asked, htake, hcheck, hprocess, hworked⟩ := Machine.turn_eq_inl_iff.mp h
  obtain ⟨hprocessed, htime, -⟩ := machine_process_eq_ok.mp hprocess
  refine Machine.turn_eq_inl_iff.mpr ⟨n, t, asked, htake, hcheck, ?_, hworked⟩
  exact machine_process_eq_ok.mpr ⟨hprocessed, htime, hroom⟩

/-- A turn whose events are more than another budget allows fails there. -/
theorem turn_exceeding (h : (machine limits earlier p).turn (monitor, s) = .inl (monitor', s'))
    (hmore : m.toNat < earlier + s'.events.length) :
    ∃ asked, (machine { limits with maxFindings := m } earlier p).turn (monitor, s) =
      .inr (asked, .failed (.maxFindings m)) := by
  obtain ⟨n, t, asked, htake, hcheck, hprocess, -⟩ := Machine.turn_eq_inl_iff.mp h
  obtain ⟨rfl, htime, -⟩ := machine_process_eq_ok.mp hprocess
  have htake' : (machine { limits with maxFindings := m } earlier p).take? s = some (n, t) := htake
  have hfails : (machine { limits with maxFindings := m } earlier p).process n t =
      .error (.maxFindings m) := by
    simp only [machine]
    rw [if_neg htime, if_pos hmore]
  refine ⟨asked, ?_⟩
  simp only [Machine.turn, htake', hcheck, hfails]

/-! ### Runs -/

theorem run_within (h : (machine limits earlier p).run k monitor s = (monitor', .settled s'))
    (hroom : earlier + s'.events.length ≤ m.toNat) :
    (machine { limits with maxFindings := m } earlier p).run k monitor s =
      (monitor', .settled s') := by
  induction k generalizing monitor s with
  | zero => cases h
  | succ k ih =>
      rw [Machine.run, iterate]
      rcases Machine.run_eq_settled h with ⟨hempty, rfl, rfl⟩ | ⟨between, u, hturn, hrest⟩
      · have hempty' : (machine { limits with maxFindings := m } earlier p).take? s = none := hempty
        rw [Machine.turn_settled hempty']
        rfl
      · -- The events so far are among those at the end, and so have room.
        have hreach := reaches_of_machine (Machine.reaches_of_run hrest).1
        have hfewer := (events_suffix_of_reaches hreach).length_le
        rw [turn_within hturn (by omega)]
        exact ih hrest

theorem run_exceeding (h : (machine limits earlier p).run k monitor s = (monitor', .settled s'))
    (hroom : earlier + s.events.length ≤ m.toNat)
    (hmore : m.toNat < earlier + s'.events.length) :
    ((machine { limits with maxFindings := m } earlier p).run k monitor s).2 =
      .failed (.maxFindings m) := by
  induction k generalizing monitor s with
  | zero => cases h
  | succ k ih =>
      rw [Machine.run, iterate]
      rcases Machine.run_eq_settled h with ⟨-, -, rfl⟩ | ⟨between, u, hturn, hrest⟩
      · omega
      · -- The events outgrow the budget in this turn or later.
        by_cases hnow : m.toNat < earlier + u.events.length
        · obtain ⟨asked, hfails⟩ := turn_exceeding hturn hnow
          rw [hfails]
          rfl
        · have hroom' : earlier + u.events.length ≤ m.toNat := by omega
          rw [turn_within hturn hroom']
          exact ih hrest hroom'

/-! ### Objects -/

theorem solveObject_within {events : List Event}
    (h : (solveObject limits monitor earlier p).2 = .ok events)
    (hroom : earlier + events.length ≤ m.toNat) :
    solveObject { limits with maxFindings := m } monitor earlier p =
      ((solveObject limits monitor earlier p).1, .ok events) := by
  obtain ⟨s, hrun, rfl⟩ := run_of_solveObject h
  rw [List.length_reverse] at hroom
  have hsame := run_within hrun hroom
  conv_lhs => rw [solveObject]
  rw [hsame]

theorem solveObject_exceeding {events : List Event}
    (h : (solveObject limits monitor earlier p).2 = .ok events) (hroom : earlier ≤ m.toNat)
    (hmore : m.toNat < earlier + events.length) :
    (solveObject { limits with maxFindings := m } monitor earlier p).2 =
      .error (.maxFindings m) := by
  obtain ⟨s, hrun, rfl⟩ := run_of_solveObject h
  rw [List.length_reverse] at hmore
  -- Only the events of earlier objects count when the solve starts.
  have hnone : earlier + (start p).events.length ≤ m.toNat := by
    rw [events_start]
    exact hroom
  have hfails := run_exceeding hrun hnone hmore
  rw [solveObject]
  rcases hrun' : (machine { limits with maxFindings := m } earlier p).run (turns p) monitor
    (start p) with ⟨asked, ending⟩
  rw [hrun'] at hfails
  obtain rfl : ending = .failed (.maxFindings m) := hfails
  rfl

end

section

variable {limits : SolverLimits} {m : UInt64} {g : BuiltGraph} {p : Protocol}
  {is : List Instance} {monitor : Monitor} {S S' : Solution}

/-- The events of an object are put behind those of the objects before it. -/
theorem events_prefix_of_solveAll (h : (solveAll limits g p is monitor S).2 = .ok S') :
    S.events <+: S'.events := by
  induction is generalizing monitor S with
  | nil =>
      cases h
      exact List.prefix_rfl
  | cons i is ih =>
      rw [solveAll] at h
      rcases hsolve : solveObject limits monitor S.events.length ⟨g, p, i⟩ with ⟨asked, e | events⟩
      · rw [hsolve] at h
        cases h
      · rw [hsolve] at h
        exact (List.prefix_append S.events events).trans (ih h)

theorem solveAll_within (h : (solveAll limits g p is monitor S).2 = .ok S')
    (hroom : S'.events.length ≤ m.toNat) :
    solveAll { limits with maxFindings := m } g p is monitor S =
      solveAll limits g p is monitor S := by
  induction is generalizing monitor S with
  | nil => rfl
  | cons i is ih =>
      rw [solveAll, solveAll]
      rw [solveAll] at h
      rcases hsolve : solveObject limits monitor S.events.length ⟨g, p, i⟩ with ⟨asked, e | events⟩
      · rw [hsolve] at h
        cases h
      · rw [hsolve] at h
        have hfewer := (events_prefix_of_solveAll h).length_le
        rw [List.length_append] at hfewer
        have hobject := solveObject_within (m := m) (congrArg Prod.snd hsolve) (by omega)
        rw [hobject, hsolve]
        exact ih h

theorem solveAll_exceeding (h : (solveAll limits g p is monitor S).2 = .ok S')
    (hroom : S.events.length ≤ m.toNat) (hmore : m.toNat < S'.events.length) :
    (solveAll { limits with maxFindings := m } g p is monitor S).2 = .error (.maxFindings m) := by
  induction is generalizing monitor S with
  | nil =>
      cases h
      omega
  | cons i is ih =>
      rw [solveAll]
      rw [solveAll] at h
      rcases hsolve : solveObject limits monitor S.events.length ⟨g, p, i⟩ with ⟨asked, e | events⟩
      · rw [hsolve] at h
        cases h
      · rw [hsolve] at h
        have hevents : (solveObject limits monitor S.events.length ⟨g, p, i⟩).2 = .ok events :=
          congrArg Prod.snd hsolve
        -- The budget is too small for this object, or has room for it and not for all.
        by_cases hnow : m.toNat < S.events.length + events.length
        · have hfails := solveObject_exceeding hevents hroom hnow
          rcases hobject : solveObject { limits with maxFindings := m } monitor S.events.length
            ⟨g, p, i⟩ with ⟨asked', result⟩
          rw [hobject] at hfails
          obtain rfl : result = .error (.maxFindings m) := hfails
          rfl
        · have hobject := solveObject_within (m := m) hevents (by omega)
          rw [hobject, hsolve]
          refine ih h ?_
          rw [List.length_append]
          omega

end

/-- Where a solve succeeds, it comes to the same solution with any budget of findings that has
    room for its events, and with any smaller one it fails for that budget. -/
theorem solve_findings_threshold (limits : SolverLimits) (g : BuiltGraph) (h : Hierarchy)
    (p : Protocol) (tracked : TypeName) (monitor : Monitor) (S : Solution)
    (hsolve : (solve limits g h p tracked monitor).2 = .ok S) (m : UInt64) :
    (S.events.length ≤ m.toNat →
      solve { limits with maxFindings := m } g h p tracked monitor =
        ((solve limits g h p tracked monitor).1, .ok S)) ∧
    (m.toNat < S.events.length →
      (solve { limits with maxFindings := m } g h p tracked monitor).2 =
        .error (.maxFindings m)) := by
  have hobjects := solve_eq_solveAll hsolve
  rw [hobjects] at hsolve
  refine ⟨?_, ?_⟩
  · intro hroom
    rw [hobjects, hobjects, ← hsolve]
    exact solveAll_within hsolve hroom
  · intro hmore
    rw [hobjects]
    exact solveAll_exceeding hsolve (Nat.zero_le _) hmore

namespace Handed

/-- Both boxes have one event.  A budget of two has room for them, a budget of one is exceeded by
    the second box. -/
theorem solve_findings_threshold_handed :
    ∃ g S, (Construction.build (plan "<alloc>") [main] .unlimited).result = .ok g ∧
      (solve {} g (hierarchy "<alloc>") .eventTracking (box "<alloc>").name .unlimited).2 =
        .ok S ∧
      S.events.map Event.object = [made, given] ∧
      (solve { maxFindings := 2 } g (hierarchy "<alloc>") .eventTracking (box "<alloc>").name
        .unlimited).2 = .ok S ∧
      (solve { maxFindings := 1 } g (hierarchy "<alloc>") .eventTracking (box "<alloc>").name
        .unlimited).2 = .error (.maxFindings 1) := by
  have hbuilt : ∃ g, (Construction.build (plan "<alloc>") [main] .unlimited).result = .ok g ∧
      ((solve {} g (hierarchy "<alloc>") .eventTracking (box "<alloc>").name
        .unlimited).2.toOption.any fun S => S.events.map Event.object = [made, given]) = true :=
    Construction.exists_built_of_any 20 (by decide +kernel)
  obtain ⟨g, hg, hany⟩ := hbuilt
  obtain ⟨S, hsolve, hobjects⟩ := exists_ok_of_any hany
  have htwo : S.events.length = 2 := by
    rw [← List.length_map (f := Event.object), hobjects]
    rfl
  have hthreshold := solve_findings_threshold {} g (hierarchy "<alloc>") .eventTracking
    (box "<alloc>").name .unlimited S hsolve
  refine ⟨g, S, hg, hsolve, hobjects, ?_, ?_⟩
  · have hroom : S.events.length ≤ (2 : UInt64).toNat := Nat.le_of_eq htwo
    exact congrArg Prod.snd ((hthreshold 2).1 hroom)
  · have hmore : (1 : UInt64).toNat < S.events.length := by
      rw [htwo]
      decide
    exact (hthreshold 1).2 hmore

end Handed

end Typestate
end StreamVerdict
