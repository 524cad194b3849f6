/-
  Runs on a queue of nodes.

  A run that settles is a sequence of turns that all went on, and ends with an empty queue.
  So an invariant of one turn holds at the end of the run.  In the other direction, a measure
  that every turn lowers bounds the turns that a run can take.  A run without a bound is a
  bounded run that has ended, if it has an end at all.
-/
import Mathlib.Algebra.Group.Nat.Defs
import Mathlib.Logic.Relation
import StreamVerdict.Data.Worklist

namespace StreamVerdict
namespace Worklist

/-! ### The queue -/

theorem mem_enqueue {queue : List Nat} {n m : Nat} :
    m ∈ enqueue queue n ↔ m ∈ queue ∨ m = n := by
  rw [enqueue]
  by_cases h : n ∈ queue
  · rw [if_pos h]
    constructor
    · exact Or.inl
    · rintro (hm | rfl)
      · exact hm
      · exact h
  · rw [if_neg h, List.mem_append, List.mem_singleton]

theorem mem_enqueueAll {queue ns : List Nat} {m : Nat} :
    m ∈ enqueueAll queue ns ↔ m ∈ queue ∨ m ∈ ns := by
  induction ns generalizing queue with
  | nil => simp [enqueueAll]
  | cons n ns ih =>
      show m ∈ enqueueAll (enqueue queue n) ns ↔ _
      rw [ih, mem_enqueue, List.mem_cons, or_assoc]

theorem length_enqueue_le (queue : List Nat) (n : Nat) :
    (enqueue queue n).length ≤ queue.length + 1 := by
  rw [enqueue]
  by_cases h : n ∈ queue
  · rw [if_pos h]
    omega
  · rw [if_neg h]
    exact Nat.le_of_eq List.length_append

theorem length_enqueueAll_le (queue ns : List Nat) :
    (enqueueAll queue ns).length ≤ queue.length + ns.length := by
  induction ns generalizing queue with
  | nil => simp [enqueueAll]
  | cons n ns ih =>
      have hone := length_enqueue_le queue n
      have hrest := ih (enqueue queue n)
      rw [List.length_cons]
      show (enqueueAll (enqueue queue n) ns).length ≤ _
      omega

theorem nodup_enqueue {queue : List Nat} (h : queue.Nodup) (n : Nat) :
    (enqueue queue n).Nodup := by
  rw [enqueue]
  by_cases hn : n ∈ queue
  · rw [if_pos hn]
    exact h
  · rw [if_neg hn, List.nodup_append]
    refine ⟨h, List.pairwise_singleton _ n, ?_⟩
    intro m hm k hk hmk
    rw [List.mem_singleton] at hk
    rw [hmk, hk] at hm
    exact hn hm

theorem nodup_enqueueAll {queue : List Nat} (h : queue.Nodup) (ns : List Nat) :
    (enqueueAll queue ns).Nodup := by
  induction ns generalizing queue with
  | nil => exact h
  | cons n ns ih => exact ih (nodup_enqueue h n)

/-! ### Measures -/

/-- Counting what remains: one member less that passes the test makes the count smaller. -/
theorem countP_lt_countP {α : Type} {l : List α} {P Q : α → Bool} (h : ∀ a ∈ l, P a → Q a) {a : α}
    (ha : a ∈ l) (hP : P a = false) (hQ : Q a = true) : l.countP P < l.countP Q := by
  obtain ⟨l₁, l₂, rfl⟩ := List.append_of_mem ha
  have h₁ : l₁.countP P ≤ l₁.countP Q :=
    List.countP_mono_left fun b hb => h b (List.mem_append.mpr (Or.inl hb))
  have h₂ : l₂.countP P ≤ l₂.countP Q :=
    List.countP_mono_left fun b hb =>
      h b (List.mem_append.mpr (Or.inr (List.mem_cons_of_mem _ hb)))
  rw [List.countP_append, List.countP_append, List.countP_cons, List.countP_cons, hP, hQ]
  simp only [Bool.false_eq_true, if_false, if_true]
  omega

/-! ### Runs -/

variable {σ ε : Type} {m : Machine σ ε}

/-- A turn that goes on leads from one state to the next. -/
def Machine.Step (m : Machine σ ε) (s s' : σ) : Prop :=
  ∃ n t, m.take? s = some (n, t) ∧ m.process n t = .ok s'

/-- States that turns lead to. -/
def Machine.Reaches (m : Machine σ ε) : σ → σ → Prop := Relation.ReflTransGen m.Step

theorem Machine.turn_settled {monitor : Monitor} {s : σ} (htake : m.take? s = none) :
    m.turn (monitor, s) = .inr (monitor, .settled s) := by
  simp only [turn, htake]

/-- What a turn does with a node: it is cancelled, it fails or it goes on. -/
theorem Machine.turn_taken (monitor : Monitor) {s t : σ} {n : Nat}
    (htake : m.take? s = some (n, t)) :
    (∃ monitor' reason, m.turn (monitor, s) = .inr (monitor', .cancelled reason t)) ∨
    (∃ monitor' e, m.turn (monitor, s) = .inr (monitor', .failed e)) ∨
    (∃ monitor' s', m.process n t = .ok s' ∧ m.turn (monitor, s) = .inl (monitor', s')) := by
  simp only [turn, htake]
  rcases hcheck : monitor.check with ⟨_ | reason, monitor'⟩
  · cases hproc : m.process n t with
    | error e => exact Or.inr (Or.inl ⟨monitor', e, rfl⟩)
    | ok s' => exact Or.inr (Or.inr ⟨monitor'.worked, s', rfl, rfl⟩)
  · exact Or.inl ⟨monitor', reason, rfl⟩

/-- A turn goes on just if there is a node, the monitor has no reason against it and the node is
    processed. -/
theorem Machine.turn_eq_inl_iff {monitor monitor' : Monitor} {s s' : σ} :
    m.turn (monitor, s) = .inl (monitor', s') ↔
      ∃ n t asked, m.take? s = some (n, t) ∧ monitor.check = (none, asked) ∧
        m.process n t = .ok s' ∧ asked.worked = monitor' := by
  constructor
  · intro h
    rcases htake : m.take? s with _ | ⟨n, t⟩
    · rw [turn_settled htake] at h
      cases h
    · simp only [turn, htake] at h
      rcases hcheck : monitor.check with ⟨_ | reason, asked⟩
      · rw [hcheck] at h
        cases hproc : m.process n t with
        | error e => simp [hproc] at h
        | ok u =>
            simp only [hproc, Sum.inl.injEq, Prod.mk.injEq] at h
            obtain ⟨hworked, rfl⟩ := h
            exact ⟨n, t, asked, rfl, rfl, hproc, hworked⟩
      · simp [hcheck] at h
  · rintro ⟨n, t, asked, htake, hcheck, hproc, rfl⟩
    simp only [turn, htake, hcheck, hproc]

/-- A run that settles has found the queue empty, or has gone on to a run that settles. -/
theorem Machine.run_eq_settled {k : Nat} {monitor monitor' : Monitor} {s s' : σ}
    (h : m.run (k + 1) monitor s = (monitor', .settled s')) :
    (m.take? s = none ∧ monitor = monitor' ∧ s = s') ∨
      ∃ between u, m.turn (monitor, s) = .inl (between, u) ∧
        m.run k between u = (monitor', .settled s') := by
  rw [run, iterate] at h
  rcases htake : m.take? s with _ | ⟨n, t⟩
  · rw [turn_settled htake] at h
    simp only [conclude, Prod.mk.injEq, Ending.settled.injEq] at h
    exact Or.inl ⟨rfl, h⟩
  · rcases turn_taken monitor htake with
      ⟨_, _, hturn⟩ | ⟨_, _, hturn⟩ | ⟨between, u, -, hturn⟩
    -- A turn that is cancelled or fails ends the run in another way.
    · simp [hturn, conclude] at h
    · simp [hturn, conclude] at h
    · rw [hturn] at h
      exact Or.inr ⟨between, u, hturn, h⟩

/-- A run that settles went on at every turn and left the queue empty. -/
theorem Machine.reaches_of_run {k : Nat} {monitor monitor' : Monitor} {s s' : σ}
    (h : m.run k monitor s = (monitor', .settled s')) : m.Reaches s s' ∧ m.take? s' = none := by
  induction k generalizing monitor s with
  | zero => simp [run, iterate, conclude] at h
  | succ k ih =>
      rcases run_eq_settled h with ⟨hempty, -, rfl⟩ | ⟨between, u, hturn, hrest⟩
      · exact ⟨Relation.ReflTransGen.refl, hempty⟩
      · obtain ⟨n, t, -, htake, -, hproc, -⟩ := turn_eq_inl_iff.mp hturn
        obtain ⟨hreach, hend⟩ := ih hrest
        exact ⟨Relation.ReflTransGen.head ⟨n, t, htake, hproc⟩ hreach, hend⟩

/-- What every turn preserves holds wherever turns lead. -/
theorem Machine.Reaches.preserves {Inv : σ → Prop} {s s' : σ} (h : m.Reaches s s')
    (hstep : ∀ s n t s', Inv s → m.take? s = some (n, t) → m.process n t = .ok s' → Inv s')
    (hs : Inv s) : Inv s' := by
  induction h with
  | refl => exact hs
  | tail _ hlast ih =>
      obtain ⟨n, t, htake, hproc⟩ := hlast
      exact hstep _ n t _ ih htake hproc

theorem check_of_patience_none {monitor : Monitor} (h : monitor.patience = none) :
    monitor.check = (none, monitor) := by
  rw [Monitor.check, h]

/-- If nothing cancels and every turn goes on and lowers a measure, a run with more turns than
    the measure settles. -/
theorem Machine.run_settles {Inv : σ → Prop} {μ : σ → Nat}
    (hstep : ∀ s n t, Inv s → m.take? s = some (n, t) →
      ∃ s', m.process n t = .ok s' ∧ Inv s' ∧ μ s' < μ s)
    {k : Nat} {monitor : Monitor} {s : σ} (hmonitor : monitor.patience = none) (hs : Inv s)
    (hk : μ s < k) :
    ∃ monitor' s', m.run k monitor s = (monitor', .settled s') ∧ Inv s' ∧ m.take? s' = none := by
  induction k generalizing monitor s with
  | zero => omega
  | succ k ih =>
      rw [run, iterate]
      rcases htake : m.take? s with _ | ⟨n, t⟩
      · rw [turn_settled htake]
        exact ⟨monitor, s, rfl, hs, htake⟩
      · -- The turn goes on, and the measure leaves enough turns for the rest of the run.
        obtain ⟨s', hproc, hinv, hlt⟩ := hstep s n t hs htake
        have hturn : m.turn (monitor, s) = .inl (monitor.worked, s') :=
          turn_eq_inl_iff.mpr ⟨n, t, monitor, htake, check_of_patience_none hmonitor, hproc, rfl⟩
        have hworked : monitor.worked.patience = none := hmonitor
        rw [hturn]
        exact ih hworked hinv (by omega)

/-- If nothing cancels and every turn that goes on lowers a measure, a run with more turns than
    the measure has ended: the queue is empty, or a turn failed. -/
theorem Machine.iterate_ends {Inv : σ → Prop} {μ : σ → Nat}
    (hstep : ∀ s n t s', Inv s → m.take? s = some (n, t) → m.process n t = .ok s' →
      Inv s' ∧ μ s' < μ s)
    {k : Nat} {monitor : Monitor} {s : σ} (hmonitor : monitor.patience = none) (hs : Inv s)
    (hk : μ s < k) :
    ∃ monitor' ending, iterate m.turn k (monitor, s) = .inr (monitor', ending) ∧
      ((∃ s', ending = .settled s' ∧ m.take? s' = none) ∨
        ∃ e n t, ending = .failed e ∧ m.process n t = .error e) := by
  induction k generalizing monitor s with
  | zero => omega
  | succ k ih =>
      rw [iterate]
      rcases htake : m.take? s with _ | ⟨n, t⟩
      · rw [turn_settled htake]
        exact ⟨monitor, .settled s, rfl, Or.inl ⟨s, rfl, htake⟩⟩
      · rcases hproc : m.process n t with e | s'
        · have hturn : m.turn (monitor, s) = .inr (monitor, .failed e) := by
            simp only [turn, htake, check_of_patience_none hmonitor, hproc]
          rw [hturn]
          exact ⟨monitor, .failed e, rfl, Or.inr ⟨e, n, t, rfl, hproc⟩⟩
        · obtain ⟨hinv, hlt⟩ := hstep s n t s' hs htake hproc
          have hturn : m.turn (monitor, s) = .inl (monitor.worked, s') :=
            turn_eq_inl_iff.mpr ⟨n, t, monitor, htake, check_of_patience_none hmonitor, hproc, rfl⟩
          have hworked : monitor.worked.patience = none := hmonitor
          rw [hturn]
          exact ih hworked hinv (by omega)

/-- A run that has ended comes to the same with any larger bound. -/
theorem Machine.run_of_iterate {k j : Nat} {monitor : Monitor} {s : σ}
    {r : Monitor × Ending σ ε} (h : iterate m.turn k (monitor, s) = .inr r) (hkj : k ≤ j) :
    m.run j monitor s = r := by
  obtain ⟨i, rfl⟩ := Nat.exists_eq_add_of_le hkj
  rw [run, iterate_add, h]
  rfl

/-! ### Monitors -/

/-- Asked whether to go on, a monitor that never cancels stays one. -/
theorem patience_of_check {monitor monitor' : Monitor} {answer : Option String}
    (hcheck : monitor.check = (answer, monitor')) (h : monitor.patience = none) :
    answer = none ∧ monitor'.patience = none := by
  rw [check_of_patience_none h, Prod.mk.injEq] at hcheck
  obtain ⟨rfl, rfl⟩ := hcheck
  exact ⟨rfl, h⟩

/-- A monitor that never cancels is one after a run, too. -/
theorem Machine.patience_of_run (m : Machine σ ε) (k : Nat) {monitor : Monitor}
    (h : monitor.patience = none) (s : σ) : (m.run k monitor s).1.patience = none := by
  induction k generalizing monitor s with
  | zero => exact h
  | succ k ih =>
      rw [run, iterate]
      rcases htake : m.take? s with _ | ⟨n, t⟩
      · rw [turn_settled htake]
        exact h
      · simp only [turn, htake, check_of_patience_none h]
        cases m.process n t with
        | error e => exact h
        | ok s' =>
            have hworked : monitor.worked.patience = none := h
            exact ih hworked s'

/-- A monitor can do nothing to a run but cancel it. -/
theorem Machine.run_monitored (m : Machine σ ε) (k : Nat) (monitor : Monitor) {free : Monitor}
    (hfree : free.patience = none) (s : σ) :
    (m.run k monitor s).2 = (m.run k free s).2 ∨
      monitor.patience ≠ none ∧ ∃ reason t, (m.run k monitor s).2 = .cancelled reason t := by
  induction k generalizing monitor free s with
  | zero => exact Or.inl rfl
  | succ k ih =>
      simp only [run, iterate]
      rcases htake : m.take? s with _ | ⟨n, t⟩
      · rw [turn_settled htake, turn_settled htake]
        exact Or.inl rfl
      · simp only [turn, htake, check_of_patience_none hfree]
        rcases hcheck : monitor.check with ⟨_ | reason, monitor'⟩
        · cases m.process n t with
          | error e => exact Or.inl rfl
          | ok s' =>
              have hworked : free.worked.patience = none := hfree
              rcases ih monitor'.worked hworked s' with hsame | ⟨hpatience, hcancelled⟩
              · exact Or.inl hsame
              · refine Or.inr ⟨?_, hcancelled⟩
                intro hnone
                exact hpatience (patience_of_check hcheck hnone).2
        · refine Or.inr ⟨?_, reason, t, rfl⟩
          intro hnone
          cases (patience_of_check hcheck hnone).1

/-- Without cancellation the end of a run does not depend on the monitor. -/
theorem Machine.run_unmonitored (m : Machine σ ε) (k : Nat) {monitor free : Monitor}
    (h : monitor.patience = none) (hfree : free.patience = none) (s : σ) :
    (m.run k monitor s).2 = (m.run k free s).2 := by
  rcases m.run_monitored k monitor hfree s with hsame | ⟨hnot, -⟩
  · exact hsame
  · exact absurd h hnot

/-! ### Runs to the end -/

/-- No turn ends a run as unfinished. -/
theorem Machine.ending_of_iterate {k : Nat} {monitor monitor' : Monitor} {s : σ}
    {ending : Ending σ ε} (h : iterate m.turn k (monitor, s) = .inr (monitor', ending)) (t : σ) :
    ending ≠ .unfinished t := by
  induction k generalizing monitor s with
  | zero => cases h
  | succ k ih =>
      rw [iterate] at h
      rcases htake : m.take? s with _ | ⟨n, u⟩
      · rw [turn_settled htake] at h
        cases h
        rintro ⟨⟩
      · rcases turn_taken monitor htake with
          ⟨_, _, hturn⟩ | ⟨_, _, hturn⟩ | ⟨between, u, -, hturn⟩
        · rw [hturn] at h
          cases h
          rintro ⟨⟩
        · rw [hturn] at h
          cases h
          rintro ⟨⟩
        · rw [hturn] at h
          exact ih h

/-- Patience for `n` nodes runs out at the turn after them at the latest. -/
theorem Machine.iterate_of_patience {n : Nat} {monitor : Monitor}
    (h : monitor.patience = some n) (s : σ) :
    ∃ r, iterate m.turn (n + 1) (monitor, s) = .inr r := by
  induction n generalizing monitor s with
  | zero =>
      rw [iterate]
      rcases htake : m.take? s with _ | ⟨k, t⟩
      · rw [turn_settled htake]
        exact ⟨_, rfl⟩
      · simp only [turn, htake, Monitor.check, h]
        exact ⟨_, rfl⟩
  | succ n ih =>
      rw [iterate]
      rcases htake : m.take? s with _ | ⟨k, t⟩
      · rw [turn_settled htake]
        exact ⟨_, rfl⟩
      · simp only [turn, htake, Monitor.check, h]
        cases m.process k t with
        | error e => exact ⟨_, rfl⟩
        | ok s' => exact ih rfl s'

/-- A run to the end is the turns until one of them ends it; without such a turn the monitor
    never cancels, and there is no end. -/
theorem Machine.runToEnd_cases (m : Machine σ ε) (monitor : Monitor) (s : σ) :
    (∃ k r, iterate m.turn k (monitor, s) = .inr r ∧ m.runToEnd monitor s = r) ∨
    (monitor.patience = none ∧ (∀ k r, iterate m.turn k (monitor, s) ≠ .inr r) ∧
      m.runToEnd monitor s = (monitor, .unfinished s)) := by
  rw [runToEnd]
  rcases hpatience : monitor.patience with _ | n
  · rcases hend : iterateToEnd m.turn (monitor, s) with _ | r
    · refine Or.inr ⟨rfl, ?_, rfl⟩
      intro k r hr
      have hsome := iterateToEnd_eq_some_iff.mpr ⟨k, hr⟩
      rw [hend] at hsome
      cases hsome
    · obtain ⟨k, hk⟩ := iterateToEnd_eq_some_iff.mp hend
      exact Or.inl ⟨k, r, hk, rfl⟩
  · obtain ⟨r, hr⟩ := iterate_of_patience (m := m) hpatience s
    exact Or.inl ⟨n + 1, r, hr, run_of_iterate hr (Nat.le_refl _)⟩

/-- A run to the end comes to the same as every bounded run that has ended. -/
theorem Machine.runToEnd_of_iterate {k : Nat} {monitor : Monitor} {s : σ}
    {r : Monitor × Ending σ ε} (h : iterate m.turn k (monitor, s) = .inr r) :
    m.runToEnd monitor s = r := by
  rcases m.runToEnd_cases monitor s with ⟨j, r', hj, hr'⟩ | ⟨-, hnever, -⟩
  · rw [hr', ← run_of_iterate h (Nat.le_max_left k j), run_of_iterate hj (Nat.le_max_right k j)]
  · exact absurd h (hnever k r)

theorem Machine.exists_run_of_runToEnd (m : Machine σ ε) (monitor : Monitor) (s : σ) :
    ∃ k, m.runToEnd monitor s = m.run k monitor s := by
  rcases m.runToEnd_cases monitor s with ⟨k, r, hk, hr⟩ | ⟨-, -, hunfinished⟩
  · exact ⟨k, hr.trans (run_of_iterate hk (Nat.le_refl k)).symm⟩
  · exact ⟨0, hunfinished⟩

theorem Machine.runToEnd_of_run {k : Nat} {monitor : Monitor} {s : σ}
    {r : Monitor × Ending σ ε} (h : m.run k monitor s = r) (hr : ∀ t, r.2 ≠ .unfinished t) :
    m.runToEnd monitor s = r := by
  rcases hiterate : iterate m.turn k (monitor, s) with ⟨between, t⟩ | r'
  · rw [run, hiterate] at h
    subst h
    exact absurd rfl (hr t)
  · rw [run, hiterate] at h
    subst h
    exact runToEnd_of_iterate hiterate

/-- A run to the end that settles went on at every turn and left the queue empty. -/
theorem Machine.reaches_of_runToEnd {monitor monitor' : Monitor} {s s' : σ}
    (h : m.runToEnd monitor s = (monitor', .settled s')) :
    m.Reaches s s' ∧ m.take? s' = none := by
  obtain ⟨k, hk⟩ := m.exists_run_of_runToEnd monitor s
  exact reaches_of_run (hk.symm.trans h)

theorem Machine.patience_of_runToEnd (m : Machine σ ε) {monitor : Monitor}
    (h : monitor.patience = none) (s : σ) : (m.runToEnd monitor s).1.patience = none := by
  obtain ⟨k, hk⟩ := m.exists_run_of_runToEnd monitor s
  rw [hk]
  exact m.patience_of_run k h s

/-- A monitor can do nothing to a run to the end but cancel it; a run that never ends without a
    monitor never ends under one that does not cancel. -/
theorem Machine.runToEnd_monitored (m : Machine σ ε) (monitor : Monitor) {free : Monitor}
    (hfree : free.patience = none) (s : σ) :
    (m.runToEnd monitor s).2 = (m.runToEnd free s).2 ∨
      monitor.patience ≠ none ∧ ∃ reason t, (m.runToEnd monitor s).2 = .cancelled reason t := by
  rcases m.runToEnd_cases monitor s with ⟨k, ⟨monitor', ending⟩, hk, hr⟩ | ⟨hpatience, hnever, hr⟩
  · have hrun := run_of_iterate hk (Nat.le_refl k)
    rw [hr]
    rcases m.run_monitored k monitor hfree s with hsame | hcancelled
    · rw [hrun] at hsame
      have hends : m.runToEnd free s = m.run k free s :=
        runToEnd_of_run rfl fun t ht => ending_of_iterate hk t (hsame.trans ht)
      exact Or.inl (hends ▸ hsame)
    · rw [hrun] at hcancelled
      exact Or.inr hcancelled
  · refine Or.inl ?_
    rcases m.runToEnd_cases free s with ⟨k, ⟨free', ending⟩, hk, -⟩ | ⟨-, -, hr'⟩
    · -- The same number of turns would have ended the run under the monitor, too.
      have hsame := m.run_unmonitored k hfree hpatience s
      rw [run_of_iterate hk (Nat.le_refl k)] at hsame
      have hends : m.runToEnd monitor s = m.run k monitor s :=
        runToEnd_of_run rfl fun t ht => ending_of_iterate hk t (hsame.trans ht)
      rw [hr] at hends
      exact absurd (hsame.trans (congrArg Prod.snd hends).symm) (ending_of_iterate hk s)
    · rw [hr, hr']

end Worklist
end StreamVerdict
