/-
  Work that takes a fixed number of units.

  The nodes that a run processes before it settles are the units of work that it reports.  A
  monitor with patience for all of them lets the run settle where it settles without a monitor,
  and a monitor with patience for fewer cancels it after exactly as many as it has patience for.
  Work that is metered so can be done one piece after the other.
-/
import StreamVerdict.Proofs.Data.Worklist

namespace StreamVerdict

/-! ### Monitors -/

namespace Monitor

/-- The monitor has patience for `k` units of work. -/
def Lasts (m : Monitor) (k : Nat) : Prop := ∀ n, m.patience = some n → k ≤ n

/-- The monitor after `k` units of work. -/
def spend (m : Monitor) (k : Nat) : Monitor :=
  { m with patience := m.patience.map (· - k), work := m.work + k }

variable {m : Monitor} {k l n : Nat}

theorem lasts_of_patience_none (h : m.patience = none) (k : Nat) : m.Lasts k := by
  intro n hn
  rw [h] at hn
  cases hn

theorem Lasts.of_le (h : m.Lasts k) (hl : l ≤ k) : m.Lasts l :=
  fun n hn => Nat.le_trans hl (h n hn)

@[simp]
theorem spend_reason (m : Monitor) (k : Nat) : (m.spend k).reason = m.reason := rfl

theorem spend_zero (m : Monitor) : m.spend 0 = m := by
  obtain ⟨patience, reason, work⟩ := m
  cases patience <;> rfl

theorem spend_spend (m : Monitor) (k l : Nat) : (m.spend k).spend l = m.spend (k + l) := by
  obtain ⟨patience, reason, work⟩ := m
  cases patience with
  | none => simp only [spend, Option.map_none, Nat.add_assoc]
  | some n => simp only [spend, Option.map_some, Nat.add_assoc, Nat.sub_sub]

theorem lasts_spend (h : m.Lasts (k + l)) : (m.spend k).Lasts l := by
  intro n hn
  obtain ⟨patience, hpatience, rfl⟩ := Option.map_eq_some_iff.mp hn
  have hle := h patience hpatience
  omega

/-- A monitor with patience for one unit more lets the turn go on. -/
theorem check_of_lasts (h : m.Lasts (k + 1)) :
    ∃ m', m.check = (none, m') ∧ m'.worked = m.spend 1 := by
  obtain ⟨patience, reason, work⟩ := m
  cases patience with
  | none => exact ⟨_, rfl, rfl⟩
  | some n =>
      have hle := h n rfl
      obtain ⟨n, rfl⟩ := Nat.exists_eq_succ_of_ne_zero (by omega : n ≠ 0)
      exact ⟨_, rfl, rfl⟩

end Monitor

namespace Worklist

/-- Work that takes `k` units.  A monitor with patience for all of them sees it through to `a`.
    A monitor with patience for fewer cancels it after exactly as many. -/
structure Metered {α ε : Type} (work : Monitor → Monitor × Except ε α) (cancelled : String → ε)
    (k : Nat) (a : α) : Prop where
  through : ∀ monitor, monitor.Lasts k → work monitor = (monitor.spend k, .ok a)
  cut : ∀ monitor n, monitor.patience = some n → n < k →
    work monitor = (monitor.spend n, .error (cancelled monitor.reason))

/-- Metered work under a monitor that goes on `n` times. -/
theorem Metered.limited {α ε : Type} {work : Monitor → Monitor × Except ε α}
    {cancelled : String → ε} {k : Nat} {a : α} (h : Metered work cancelled k a) (n : Nat)
    (reason : String) :
    (k ≤ n → (work ⟨some n, reason, 0⟩).2 = .ok a ∧ (work ⟨some n, reason, 0⟩).1.work = k) ∧
    (n < k → (work ⟨some n, reason, 0⟩).2 = .error (cancelled reason) ∧
      (work ⟨some n, reason, 0⟩).1.work = n) := by
  constructor
  · intro hkn
    have hlasts : (Monitor.mk (some n) reason 0).Lasts k := by
      intro n' hn'
      cases hn'
      exact hkn
    rw [h.through _ hlasts]
    exact ⟨rfl, Nat.zero_add k⟩
  · intro hnk
    rw [h.cut _ n rfl hnk]
    exact ⟨rfl, Nat.zero_add n⟩

/-- Metered work without cancellation reports all its units. -/
theorem Metered.unlimited {α ε : Type} {work : Monitor → Monitor × Except ε α}
    {cancelled : String → ε} {k : Nat} {a : α} (h : Metered work cancelled k a) :
    (work .unlimited).1.work = k := by
  rw [h.through _ (Monitor.lasts_of_patience_none rfl k)]
  exact Nat.zero_add k

variable {σ ε : Type} {m : Machine σ ε} {s s' : σ} {j k n : Nat} {monitor monitor' : Monitor}

/-! ### Runs -/

/-- From `s` to `s'`, `k` nodes are processed one after the other. -/
inductive Machine.Processes (m : Machine σ ε) : Nat → σ → σ → Prop where
  | done (s : σ) : m.Processes 0 s s
  | next {k n : Nat} {s t s' s'' : σ} (htake : m.take? s = some (n, t))
      (hprocess : m.process n t = .ok s') (hrest : m.Processes k s' s'') :
      m.Processes (k + 1) s s''

/-- A turn that goes on takes one unit from the monitor's patience. -/
theorem Machine.turn_of_lasts {t : σ} (htake : m.take? s = some (n, t))
    (hprocess : m.process n t = .ok s') (hlasts : monitor.Lasts (k + 1)) :
    m.turn (monitor, s) = .inl (monitor.spend 1, s') := by
  obtain ⟨asked, hcheck, hworked⟩ := Monitor.check_of_lasts hlasts
  simp only [turn, htake, hcheck, hprocess, hworked]

/-- A run that settles has processed nodes until the queue was empty, in fewer turns than it was
    allowed. -/
theorem Machine.processes_of_run (h : m.run j monitor s = (monitor', .settled s')) :
    ∃ k, k < j ∧ m.Processes k s s' ∧ m.take? s' = none := by
  induction j generalizing monitor s with
  | zero => simp [run, iterate, conclude] at h
  | succ j ih =>
      rcases run_eq_settled h with ⟨hempty, -, rfl⟩ | ⟨between, u, hturn, hrest⟩
      · exact ⟨0, Nat.succ_pos j, Processes.done s, hempty⟩
      · obtain ⟨n, t, -, htake, -, hprocess, -⟩ := turn_eq_inl_iff.mp hturn
        obtain ⟨k, hk, hprocesses, hend⟩ := ih hrest
        exact ⟨k + 1, Nat.succ_lt_succ hk, Processes.next htake hprocess hprocesses, hend⟩

/-- With patience for all nodes the run settles. -/
theorem Machine.run_through (h : m.Processes k s s') (hend : m.take? s' = none) (hj : k < j)
    (hlasts : monitor.Lasts k) : m.run j monitor s = (monitor.spend k, .settled s') := by
  induction h generalizing j monitor with
  | done s =>
      obtain ⟨j, rfl⟩ := Nat.exists_eq_succ_of_ne_zero (by omega : j ≠ 0)
      rw [run, iterate, turn_settled hend, Monitor.spend_zero]
      rfl
  | @next k n s t s₁ s₂ htake hprocess _ ih =>
      obtain ⟨j, rfl⟩ := Nat.exists_eq_succ_of_ne_zero (by omega : j ≠ 0)
      have hrest : (monitor.spend 1).Lasts k :=
        Monitor.lasts_spend (hlasts.of_le (by omega : 1 + k ≤ k + 1))
      have hrun := ih hend (Nat.lt_of_succ_lt_succ hj) hrest
      rw [Monitor.spend_spend, Nat.add_comm 1 k] at hrun
      rw [run, iterate, turn_of_lasts htake hprocess hlasts]
      exact hrun

/-- With patience for fewer nodes the run is cancelled when the patience is used up. -/
theorem Machine.run_cut (h : m.Processes k s s') (hj : n < j) (hn : monitor.patience = some n)
    (hk : n < k) : ∃ t, m.run j monitor s = (monitor.spend n, .cancelled monitor.reason t) := by
  induction h generalizing j monitor n with
  | done s => omega
  | @next k _ s t s₁ s₂ htake hprocess _ ih =>
      obtain ⟨j, rfl⟩ := Nat.exists_eq_succ_of_ne_zero (by omega : j ≠ 0)
      cases n with
      | zero =>
          -- The node is taken from the queue, and not processed any more.
          have hcheck : monitor.check = (some monitor.reason, monitor) := by
            rw [Monitor.check, hn]
          refine ⟨t, ?_⟩
          rw [run, iterate, turn, htake, Monitor.spend_zero]
          simp only [hcheck, conclude]
      | succ n =>
          have hlasts : monitor.Lasts (n + 1) := by
            intro n' hn'
            rw [hn] at hn'
            exact Nat.le_of_eq (Option.some.inj hn')
          have hn' : (monitor.spend 1).patience = some n := by
            rw [Monitor.spend, hn]
            rfl
          obtain ⟨u, hrun⟩ := ih (Nat.lt_of_succ_lt_succ hj) hn' (Nat.lt_of_succ_lt_succ hk)
          rw [Monitor.spend_spend, Monitor.spend_reason, Nat.add_comm 1 n] at hrun
          refine ⟨u, ?_⟩
          rw [run, iterate, turn_of_lasts htake hprocess hlasts]
          exact hrun

end Worklist
end StreamVerdict
