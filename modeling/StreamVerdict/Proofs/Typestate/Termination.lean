/-
  Every run of a solve comes to an end.

  Only attainable states flow, and only nodes that are entry points or ends of edges are ever
  queued.  So a solve can learn only so many facts.  Its potential counts the nodes that are
  queued and the facts that are missing, where a missing fact about the states with which a
  node may be left counts once for each edge: learning it may queue that many callers.  No move
  raises the potential, and every turn takes a node from the queue and lowers it.
-/
import Mathlib.Data.List.ProdSigma
import StreamVerdict.Proofs.Typestate.Solve

namespace StreamVerdict
namespace Typestate

/-! ### Missing facts -/

/-- The nodes that can be queued: entry points and ends of edges. -/
def Problem.places (p : Problem) : List Nat :=
  p.graph.graph.entrypoints ++
    (p.graph.graph.edges.map Edge.caller ++ p.graph.graph.edges.map Edge.callee)

/-- Whatever can become a fact: an attainable state at a node that can be queued. -/
def Problem.possible (p : Problem) : List (Nat × State) :=
  p.places.product p.protocol.attainable

/-- The number of possible facts that are not known yet. -/
def missing (p : Problem) (f : Facts) : Nat :=
  p.possible.countP fun c => c.2 ∉ Facts.get f c.1

def potential (p : Problem) (s : Progress) : Nat :=
  s.queue.length + (missing p s.entry + p.graph.graph.edges.length * missing p s.exit)

theorem missing_le (p : Problem) (f : Facts) :
    missing p f ≤ p.places.length * p.protocol.attainable.length := by
  rw [missing, ← List.length_product]
  exact List.countP_le_length

theorem missing_join_le (p : Problem) (f : Facts) (n : Nat) (C : OrdSet State) :
    missing p (Facts.join f n C) ≤ missing p f := by
  refine List.countP_mono_left ?_
  rintro ⟨m, q⟩ - hq
  rw [decide_eq_true_eq] at hq ⊢
  exact fun hold => hq (Facts.mem_get_join.mpr (Or.inl hold))

/-- A new state at a node that can be queued makes fewer facts missing. -/
theorem missing_join_lt {p : Problem} {f : Facts} {n : Nat} {C : OrdSet State}
    (hn : n ∈ p.places) (hC : ∀ q ∈ C, q ∈ p.protocol.attainable)
    (hnew : Facts.lacks f n C = true) : missing p (Facts.join f n C) < missing p f := by
  -- The state that is new was missing before and is not missing now.
  obtain ⟨q, hq, hlacks⟩ := List.any_eq_true.mp hnew
  refine Worklist.countP_lt_countP ?_ (List.mem_product.mpr ⟨hn, hC q hq⟩) ?_ hlacks
  · rintro ⟨m, r⟩ - hr
    rw [decide_eq_true_eq] at hr ⊢
    exact fun hold => hr (Facts.mem_get_join.mpr (Or.inl hold))
  · rw [decide_eq_false_iff_not, not_not]
    exact Facts.mem_get_join.mpr (Or.inr ⟨rfl, hq⟩)

/-! ### Moves -/

/-- Only attainable states are held, and only nodes that can be queued are. -/
structure Fits (p : Problem) (s : Progress) : Prop where
  entry : ∀ m, ∀ q ∈ s.entrySet m, q ∈ p.protocol.attainable
  exit : ∀ m, ∀ q ∈ s.exitSet m, q ∈ p.protocol.attainable
  recorded : ∀ q ∈ s.recorded p, q ∈ p.protocol.attainable
  queue : ∀ m ∈ s.queue, m ∈ p.places

theorem caller_mem_places {p : Problem} {m n : Nat} (h : m ∈ p.graph.graph.callers n) :
    m ∈ p.places := by
  obtain ⟨site, hedge⟩ := CallGraph.mem_callers.mp h
  exact List.mem_append_right _ (List.mem_append_left _ (List.mem_map_of_mem hedge))

theorem callee_mem_places {p : Problem} {n c : Nat} {site : CallSite}
    (h : ⟨n, site, c⟩ ∈ p.graph.graph.edges) : c ∈ p.places :=
  List.mem_append_right _ (List.mem_append_right _ (List.mem_map_of_mem h))

theorem afterInstruction_attainable {p : Problem} {n : Nat} {x : Node} {i : Instruction}
    {q : State} (h : q ∈ p.protocol.attainable) :
    afterInstruction p n x i q ∈ p.protocol.attainable := by
  rw [afterInstruction]
  rcases actionAt? p n x i with _ | a
  · exact h
  · exact Protocol.after_mem_attainable a h

theorem potential_enter_le {p : Problem} {s : Progress} {c : Nat} {C : OrdSet State}
    (hc : c ∈ p.places) (hC : ∀ q ∈ C, q ∈ p.protocol.attainable) :
    potential p (s.enter c C) ≤ potential p s := by
  rw [potential, potential, Progress.exit_enter, Progress.enter]
  by_cases hnew : Facts.lacks s.entry c C = true
  · -- One node is queued, and one fact less is missing.
    have hfewer := missing_join_lt hc hC hnew
    have hone := Worklist.length_enqueue_le s.queue c
    rw [if_pos hnew]
    show (Worklist.enqueue s.queue c).length + (missing p (Facts.join s.entry c C) + _) ≤ _
    omega
  · have hfewer := missing_join_le p s.entry c C
    rw [if_neg hnew]
    show s.queue.length + (missing p (Facts.join s.entry c C) + _) ≤ _
    omega

theorem potential_leave_le {p : Problem} {s : Progress} {n : Nat} {C : OrdSet State}
    (hn : n ∈ p.places) (hC : ∀ q ∈ C, q ∈ p.protocol.attainable) :
    potential p (s.leave p.graph.graph n C) ≤ potential p s := by
  rw [potential, potential, Progress.entry_leave, Progress.leave]
  by_cases hnew : Facts.lacks s.exit n C = true
  · -- At most one caller for each edge is queued, and one fact less is missing.
    have hfewer : missing p (Facts.join s.exit n C) + 1 ≤ missing p s.exit :=
      missing_join_lt hn hC hnew
    have hcallers := Worklist.length_enqueueAll_le s.queue (p.graph.graph.callers n)
    have hedges := CallGraph.length_callers_le p.graph.graph n
    have hweight := Nat.mul_le_mul_left p.graph.graph.edges.length hfewer
    rw [Nat.mul_add, Nat.mul_one] at hweight
    rw [if_pos hnew]
    show (Worklist.enqueueAll s.queue (p.graph.graph.callers n)).length +
      (_ + p.graph.graph.edges.length * missing p (Facts.join s.exit n C)) ≤ _
    omega
  · have hweight := Nat.mul_le_mul_left p.graph.graph.edges.length
      (missing_join_le p s.exit n C)
    rw [if_neg hnew]
    show s.queue.length +
      (_ + p.graph.graph.edges.length * missing p (Facts.join s.exit n C)) ≤ _
    omega

/-- No move raises the potential, and none leads out of the attainable states. -/
theorem Fits.move {p : Problem} {n : Nat} {x : Node} {acc acc' : Progress × OrdSet State}
    (hn : n ∈ p.places) (h : Fits p acc.1) (hcurrent : ∀ q ∈ acc.2, q ∈ p.protocol.attainable)
    (hmove : Move p n x acc acc') :
    Fits p acc'.1 ∧ (∀ q ∈ acc'.2, q ∈ p.protocol.attainable) ∧
      potential p acc'.1 ≤ potential p acc.1 := by
  cases hmove with
  | act i =>
      obtain ⟨honly, hset, -, hback⟩ := perform_spec p n x i acc
      have hmoved : ∀ q ∈ (perform p n x i acc).2, q ∈ p.protocol.attainable := by
        intro q hq
        have hq' : q ∈ (perform p n x i acc).2.members := hq
        rw [hset] at hq'
        obtain ⟨q₀, hq₀, rfl⟩ := hq'
        exact afterInstruction_attainable (hcurrent q₀ hq₀)
      refine ⟨⟨?_, ?_, ?_, ?_⟩, hmoved, ?_⟩
      · rw [honly.entrySet]
        exact h.entry
      · rw [honly.exitSet]
        exact h.exit
      · intro q hq
        rcases hback hq with hold | hnew
        · exact h.recorded q hold
        · exact hmoved q hnew
      · rw [honly.queue]
        exact h.queue
      · rw [potential, potential, honly.queue, honly.entry, honly.exit]
  | @call c site hedge =>
      refine ⟨⟨?_, ?_, ?_, ?_⟩, ?_, potential_enter_le (callee_mem_places hedge) hcurrent⟩
      · intro m q hq
        rcases Progress.mem_entrySet_enter.mp hq with hold | ⟨-, hnew⟩
        · exact h.entry m q hold
        · exact hcurrent q hnew
      · rw [visitCallee, Progress.exitSet_enter]
        exact h.exit
      · rw [visitCallee, Progress.recorded_enter]
        exact h.recorded
      · intro m hm
        rcases Progress.mem_queue_enter.mp hm with hold | ⟨rfl, -⟩
        · exact h.queue m hold
        · exact callee_mem_places hedge
      · intro q hq
        have hq' : q ∈ (visitCallee acc c).2.members := hq
        rw [members_visitCallee] at hq'
        rcases hq' with hq | hq
        · exact hcurrent q hq
        · exact h.exit c q hq
  | leave =>
      refine ⟨⟨?_, ?_, ?_, ?_⟩, hcurrent, potential_leave_le hn hcurrent⟩
      · rw [Progress.entrySet_leave]
        exact h.entry
      · intro m q hq
        rcases Progress.mem_exitSet_leave.mp hq with hold | ⟨-, hnew⟩
        · exact h.exit m q hold
        · exact hcurrent q hnew
      · rw [Progress.recorded_leave]
        exact h.recorded
      · intro m hm
        rcases Progress.mem_queue_leave.mp hm with hold | ⟨hcaller, -⟩
        · exact h.queue m hold
        · exact caller_mem_places hcaller

theorem Fits.moves {p : Problem} {n : Nat} {x : Node} {acc acc' : Progress × OrdSet State}
    (hn : n ∈ p.places) (h : Fits p acc.1) (hcurrent : ∀ q ∈ acc.2, q ∈ p.protocol.attainable)
    (hmoves : Moves p n x acc acc') :
    Fits p acc'.1 ∧ (∀ q ∈ acc'.2, q ∈ p.protocol.attainable) ∧
      potential p acc'.1 ≤ potential p acc.1 := by
  induction hmoves with
  | refl => exact ⟨h, hcurrent, Nat.le_refl _⟩
  | tail _ hlast ih =>
      obtain ⟨hfits, hattainable, hle⟩ := ih
      obtain ⟨hfits', hattainable', hle'⟩ := hfits.move hn hattainable hlast
      exact ⟨hfits', hattainable', hle'.trans hle⟩

/-! ### Turns -/

/-- Processing a node does not raise the potential. -/
theorem Fits.process {p : Problem} {s : Progress} {n : Nat} (hn : n ∈ p.places)
    (h : Fits p s) : Fits p (process p n s) ∧ potential p (process p n s) ≤ potential p s := by
  rcases process_cases p n s with ⟨hsame, -⟩ | ⟨x, b, -, -, hprocess⟩
  · rw [hsame]
    exact ⟨h, Nat.le_refl _⟩
  · obtain ⟨hfits, -, hle⟩ := Fits.moves hn h (h.entry n)
      (moves_of_walkThrough p n x b.instructions (s, Facts.get s.entry n))
    rw [hprocess]
    exact ⟨hfits, hle⟩

/-- Every step lowers the potential. -/
theorem Fits.step {p : Problem} {s s' : Progress} (h : Fits p s) (hstep : Step p s s') :
    Fits p s' ∧ potential p s' < potential p s := by
  obtain ⟨n, hn, rfl⟩ := hstep
  have hrest : Fits p { s with queue := s.queue.erase n } :=
    ⟨h.entry, h.exit, h.recorded, fun m hm => h.queue m (List.mem_of_mem_erase hm)⟩
  obtain ⟨hfits, hle⟩ := hrest.process (h.queue n hn)
  refine ⟨hfits, Nat.lt_of_le_of_lt hle ?_⟩
  have hqueue : (s.queue.erase n).length < s.queue.length := by
    rw [List.length_erase_of_mem hn]
    exact Nat.sub_lt (List.length_pos_of_mem hn) Nat.one_pos
  exact Nat.add_lt_add_right hqueue _

theorem fits_start (p : Problem) : Fits p (start p) := by
  obtain ⟨hexit, hevents, hentry, hqueue, -⟩ :=
    foldl_startAt_spec p p.graph.graph.entrypoints .blank
  rw [start_eq]
  generalize p.graph.graph.entrypoints.foldl (startAt p) .blank = s
    at hexit hevents hentry hqueue ⊢
  refine ⟨?_, ?_, ?_, ?_⟩
  · intro m q hq
    rcases (hentry m q).mp hq with hold | ⟨-, rfl⟩
    · exact absurd hold (OrdSet.not_mem_empty q)
    · exact p.protocol.initial_mem_attainable
  · intro m q hq
    rw [Progress.exitSet, hexit] at hq
    exact absurd hq (OrdSet.not_mem_empty q)
  · rintro q (rfl | ⟨e, he, -⟩)
    · exact p.protocol.initial_mem_attainable
    · rw [hevents] at he
      exact absurd he List.not_mem_nil
  · intro m hm
    rcases (hqueue m).mp hm with hold | hm
    · exact absurd hold List.not_mem_nil
    · exact List.mem_append_left _ hm

/-- At the start, at most the entry points are queued and all facts are missing. -/
theorem potential_start_lt (p : Problem) : potential p (start p) < turns p := by
  obtain ⟨-, -, -, -, hlength⟩ :=
    foldl_startAt_spec p p.graph.graph.entrypoints .blank
  have hqueue : (start p).queue.length ≤ p.graph.graph.entrypoints.length := by
    rw [start_eq]
    simpa [Progress.blank] using hlength
  have hplaces : p.places.length =
      p.graph.graph.entrypoints.length + 2 * p.graph.graph.edges.length := by
    rw [Problem.places, List.length_append, List.length_append, List.length_map, List.length_map]
    omega
  have hstates : p.protocol.attainable.length = 1 + p.protocol.transitions.length := by
    rw [Protocol.attainable, List.length_cons, List.length_map]
    omega
  have hbound : ∀ f, missing p f ≤ (p.graph.graph.entrypoints.length +
      p.graph.graph.nodes.length + 2 * p.graph.graph.edges.length) *
      (1 + 2 * p.protocol.transitions.length) := by
    intro f
    refine (missing_le p f).trans (Nat.mul_le_mul ?_ ?_)
    · omega
    · omega
  -- The factor of the exit facts has to be moved to where the bound has it.
  have hentry := hbound (start p).entry
  have hweight := Nat.mul_le_mul_left p.graph.graph.edges.length (hbound (start p).exit)
  rw [← Nat.mul_assoc] at hweight
  rw [potential, turns]
  show _ < p.graph.graph.entrypoints.length + _ + _ + 1
  omega

/-! ### Runs -/

/-- A run of the given number of steps, in whatever order it takes nodes from the queue. -/
inductive StepsTo (p : Problem) (s : Progress) : Nat → Progress → Prop where
  | none : StepsTo p s 0 s
  | more {k : Nat} {s' s'' : Progress} (hrun : StepsTo p s k s') (hstep : Step p s' s'') :
      StepsTo p s (k + 1) s''

theorem StepsTo.potential_le {p : Problem} {k : Nat} {s s' : Progress} (hs : Fits p s)
    (h : StepsTo p s k s') : Fits p s' ∧ k + potential p s' ≤ potential p s := by
  induction h with
  | none => exact ⟨hs, by omega⟩
  | more _ hstep ih =>
      obtain ⟨hfits, hle⟩ := ih
      obtain ⟨hfits', hlt⟩ := hfits.step hstep
      exact ⟨hfits', by omega⟩

/-- Every run from the start takes fewer steps than the solve allows. -/
theorem length_lt_turns {p : Problem} {k : Nat} {s : Progress} (h : StepsTo p (start p) k s) :
    k < turns p := by
  obtain ⟨-, hle⟩ := h.potential_le (fits_start p)
  have hstart := potential_start_lt p
  omega

theorem fits_of_reaches {p : Problem} {s : Progress} (h : Reaches p (start p) s) : Fits p s := by
  induction h with
  | refl => exact fits_start p
  | tail _ hlast ih => exact (ih.step hlast).1

/-! ### The solve of an object -/

/-- The solve of one object with nothing that could stop it. -/
def unhindered (p : Problem) : Worklist.Machine Progress SolverError where
  take? := Progress.take?
  process n s := .ok (process p n s)

theorem step_of_unhindered {p : Problem} {s s' : Progress} (h : (unhindered p).Step s s') :
    Step p s s' := by
  obtain ⟨n, t, htake, hprocess⟩ := h
  cases hprocess
  exact step_of_take? p htake

theorem reaches_of_unhindered {p : Problem} {s s' : Progress} (h : (unhindered p).Reaches s s') :
    Reaches p s s' :=
  Relation.ReflTransGen.mono (fun _ _ => step_of_unhindered) _ _ h

/-- An unhindered solve settles. -/
theorem exists_settled (p : Problem) :
    ∃ s, (unhindered p).Reaches (start p) s ∧ Settled p s := by
  have hstep : ∀ s n t, Fits p s → (unhindered p).take? s = some (n, t) →
      ∃ s', (unhindered p).process n t = .ok s' ∧ Fits p s' ∧ potential p s' < potential p s :=
    fun s n t hfits htake => ⟨_, rfl, hfits.step (step_of_take? p htake)⟩
  have hpatience : Monitor.unlimited.patience = none := rfl
  obtain ⟨_, s, hrun, -, -⟩ :=
    Worklist.Machine.run_settles hstep hpatience (fits_start p) (potential_start_lt p)
  obtain ⟨hreach, hend⟩ := Worklist.Machine.reaches_of_run hrun
  exact ⟨s, hreach, reaches_of_unhindered hreach, take?_eq_none hend⟩

theorem events_suffix_process (p : Problem) (n : Nat) (s : Progress) :
    s.events <:+ (process p n s).events := by
  rcases process_cases p n s with ⟨hsame, -⟩ | ⟨x, b, -, -, hprocess⟩
  · simp [hsame]
  · have hmoves := moves_of_walkThrough p n x b.instructions (s, Facts.get s.entry n)
    rw [hprocess]
    exact (Advance.of_moves hmoves).events

/-- No event is lost. -/
theorem events_suffix_of_reaches {p : Problem} {s s' : Progress} (h : Reaches p s s') :
    s.events <:+ s'.events := by
  induction h with
  | refl => exact List.suffix_rfl
  | @tail u _ _ hlast ih =>
      obtain ⟨n, -, rfl⟩ := hlast
      exact ih.trans (events_suffix_process p n { u with queue := u.queue.erase n })

/-- An unhindered run to a state without a queue goes on in one way only. -/
theorem unhindered_reaches_cases {p : Problem} {s s' : Progress}
    (h : (unhindered p).Reaches s s') (hend : s'.queue = []) :
    (s.take? = none ∧ s = s') ∨
      ∃ n t, s.take? = some (n, t) ∧ (unhindered p).Reaches (process p n t) s' := by
  rcases Relation.ReflTransGen.cases_head h with rfl | ⟨u, ⟨n, t, htake, hprocess⟩, hrest⟩
  · refine Or.inl ⟨?_, rfl⟩
    rw [Progress.take?, hend]
  · cases hprocess
    exact Or.inr ⟨n, t, htake, hrest⟩

/-- Without cancellation and with time and room for all events, the solve of an object ends as
    the unhindered one does. -/
theorem solveObject_eq_of_unhindered {p : Problem} {s : Progress} {limits : SolverLimits}
    {monitor : Monitor} {earlier : Nat} (hreach : (unhindered p).Reaches (start p) s)
    (hend : s.queue = []) (hpatience : monitor.patience = none) (htime : limits.timeoutMs ≠ 0)
    (hroom : earlier + s.events.length ≤ limits.maxFindings.toNat) :
    (solveObject limits monitor earlier p).2 = .ok s.events.reverse := by
  -- The invariant of the run is that the unhindered one still leads to `s`.
  have hstep : ∀ u n t, (Fits p u ∧ (unhindered p).Reaches u s) →
      (machine limits earlier p).take? u = some (n, t) →
      ∃ u', (machine limits earlier p).process n t = .ok u' ∧
        (Fits p u' ∧ (unhindered p).Reaches u' s) ∧ potential p u' < potential p u := by
    rintro u n t ⟨hfits, hleads⟩ htake
    have htake' : u.take? = some (n, t) := htake
    rcases unhindered_reaches_cases hleads hend with ⟨hnone, -⟩ | ⟨n', t', hsome, hrest⟩
    · rw [hnone] at htake'
      cases htake'
    · rw [hsome] at htake'
      cases htake'
      obtain ⟨hfits', hlt⟩ := hfits.step (step_of_take? p hsome)
      have hfewer := (events_suffix_of_reaches (reaches_of_unhindered hrest)).length_le
      exact ⟨_, machine_process_eq_ok.mpr ⟨rfl, htime, by omega⟩, ⟨hfits', hrest⟩, hlt⟩
  obtain ⟨monitor', u, hrun, ⟨-, hleads⟩, hnone⟩ :=
    Worklist.Machine.run_settles hstep hpatience ⟨fits_start p, hreach⟩ (potential_start_lt p)
  have hnone' : u.take? = none := hnone
  rcases unhindered_reaches_cases hleads hend with ⟨-, rfl⟩ | ⟨n, t, hsome, -⟩
  · rw [solveObject, hrun]
  · rw [hnone'] at hsome
    cases hsome

end Typestate
end StreamVerdict
