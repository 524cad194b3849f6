/-
  Repeating a step until it has a result.

  `iterate` repeats a step up to a given number of times, and `iterateToEnd` as often as it
  takes.  A step that never has a result is repeated for ever; there is a result just if some
  number of steps leads to it.
-/

namespace StreamVerdict

variable {α β : Type}

/-- Repeats a step up to `n` times, or until it has a result. -/
def iterate (step : α → α ⊕ β) : Nat → α → α ⊕ β
  | 0, a => .inl a
  | n + 1, a =>
    match step a with
    | .inl a' => iterate step n a'
    | .inr b => .inr b

theorem iterate_add (step : α → α ⊕ β) (m n : Nat) (a : α) :
    iterate step (m + n) a =
      match iterate step m a with
      | .inl a' => iterate step n a'
      | .inr b => .inr b := by
  induction m generalizing a with
  | zero => simp [iterate]
  | succ m ih =>
    rw [Nat.succ_add]
    simp only [iterate]
    cases step a with
    | inl a' => exact ih a'
    | inr b => rfl

/-! ### Without a bound -/

/-- Some number of steps leads to the result. -/
def LeadsTo (step : α → α ⊕ β) (a : α) (b : β) : Prop := ∃ n, iterate step n a = .inr b

section LeadsTo

variable {step : α → α ⊕ β} {a a' : α} {b c : β}

theorem LeadsTo.unique (hb : LeadsTo step a b) (hc : LeadsTo step a c) : b = c := by
  obtain ⟨m, hm⟩ := hb
  obtain ⟨n, hn⟩ := hc
  have hmn := iterate_add step m n a
  have hnm := iterate_add step n m a
  rw [hm] at hmn
  rw [hn, Nat.add_comm n m, hmn] at hnm
  exact Sum.inr.inj hnm

theorem leadsTo_of_inl (h : step a = .inl a') : LeadsTo step a b ↔ LeadsTo step a' b := by
  constructor
  · rintro ⟨n, hn⟩
    cases n with
    | zero => cases hn
    | succ n =>
      rw [iterate, h] at hn
      exact ⟨n, hn⟩
  · rintro ⟨n, hn⟩
    refine ⟨n + 1, ?_⟩
    rw [iterate, h]
    exact hn

theorem leadsTo_of_inr (h : step a = .inr b) : LeadsTo step a c ↔ b = c := by
  have hb : LeadsTo step a b := ⟨1, by rw [iterate, h]⟩
  constructor
  · exact hb.unique
  · rintro rfl
    exact hb

end LeadsTo

/-- The result that the steps lead to, or nothing if they lead to none. -/
structure Eventual (step : α → α ⊕ β) (a : α) where
  result? : Option β
  spec : ∀ b, result? = some b ↔ LeadsTo step a b

-- Nothing is repeated here: that there is such a thing need not be found out by taking steps.
instance (step : α → α ⊕ β) (a : α) : Nonempty (Eventual step a) := by
  by_cases h : ∃ b, LeadsTo step a b
  · obtain ⟨b, hb⟩ := h
    refine ⟨some b, fun c => ?_⟩
    rw [Option.some.injEq]
    constructor
    · rintro rfl
      exact hb
    · exact hb.unique
  · refine ⟨none, fun b => ?_⟩
    constructor
    · intro hb
      cases hb
    · intro hb
      exact absurd ⟨b, hb⟩ h

/-- Repeats a step until it has a result.  Whether the steps come to an end is no concern of the
    definition: its value is the only one that there can be. -/
def eventual (step : α → α ⊕ β) : (a : α) → Eventual step a :=
  WellFounded.extrinsicFix (fun a' a => step a = .inl a') fun a rest =>
    match h : step a with
    | .inl a' => ⟨(rest a' h).result?, fun b => ((rest a' h).spec b).trans (leadsTo_of_inl h).symm⟩
    | .inr b => ⟨some b, fun c => by rw [Option.some.injEq, leadsTo_of_inr h]⟩

/-- The result of repeating a step until it has one. -/
def iterateToEnd (step : α → α ⊕ β) (a : α) : Option β := (eventual step a).result?

/-- There is a result just if some number of steps leads to it. -/
theorem iterateToEnd_eq_some_iff {step : α → α ⊕ β} {a : α} {b : β} :
    iterateToEnd step a = some b ↔ ∃ n, iterate step n a = .inr b :=
  (eventual step a).spec b

end StreamVerdict
