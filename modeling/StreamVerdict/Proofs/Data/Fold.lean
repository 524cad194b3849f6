/-
  Folds as sequences of steps.

  If every step of a fold relates the states before and after it, so does the whole fold, and
  the step of each element lies somewhere on the way.
-/

namespace StreamVerdict

variable {α β ε : Type} {R : β → β → Prop}

theorem bind_eq_ok {γ : Type} {x : Except ε α} {f : α → Except ε γ} {c : γ} :
    x >>= f = .ok c ↔ ∃ a, x = .ok a ∧ f a = .ok c := by
  cases x with
  | error e => simp [bind, Except.bind]
  | ok a => simp [bind, Except.bind]

theorem bind_eq_error {γ : Type} {x : Except ε α} {f : α → Except ε γ} {e : ε} :
    x >>= f = .error e ↔ x = .error e ∨ ∃ a, x = .ok a ∧ f a = .error e := by
  cases x with
  | error e => simp [bind, Except.bind]
  | ok a => simp [bind, Except.bind]

/-- A result that passes a test is there. -/
theorem exists_ok_of_any {x : Except ε α} {P : α → Prop} [DecidablePred P]
    (h : (x.toOption.any fun a => decide (P a)) = true) : ∃ a, x = .ok a ∧ P a := by
  cases x with
  | error e => cases h
  | ok a => exact ⟨a, rfl, of_decide_eq_true h⟩

theorem foldlM_cons_eq_ok {f : β → α → Except ε β} {a : α} {l : List α} {b c : β} :
    (a :: l).foldlM f b = .ok c ↔ ∃ b', f b a = .ok b' ∧ l.foldlM f b' = .ok c := by
  rw [List.foldlM_cons, bind_eq_ok]

/-- A fold fails with the error of one of its steps. -/
theorem exists_error_of_foldlM {f : β → α → Except ε β} {l : List α} {b : β} {e : ε}
    (h : l.foldlM f b = .error e) : ∃ b' a, a ∈ l ∧ f b' a = .error e := by
  induction l generalizing b with
  | nil =>
      rw [List.foldlM_nil] at h
      cases h
  | cons a l ih =>
      rw [List.foldlM_cons, bind_eq_error] at h
      rcases h with hfirst | ⟨b', -, hrest⟩
      · exact ⟨b, a, List.mem_cons_self, hfirst⟩
      · obtain ⟨b'', a', ha', hstep⟩ := ih hrest
        exact ⟨b'', a', List.mem_cons_of_mem _ ha', hstep⟩

/-- A fold that succeeds relates its start and its end, and every element is passed on the
    way.  A step may rely on what relates the start of the fold to it. -/
theorem foldlM_passes (hrefl : ∀ b, R b b) (htrans : ∀ a b c, R a b → R b c → R a c)
    {f : β → α → Except ε β} {l : List α} {b c : β}
    (hstep : ∀ b₁ a b₂, a ∈ l → R b b₁ → f b₁ a = .ok b₂ → R b₁ b₂) (h : l.foldlM f b = .ok c) :
    R b c ∧ ∀ a ∈ l, ∃ b₁ b₂, R b b₁ ∧ f b₁ a = .ok b₂ ∧ R b₂ c := by
  induction l generalizing b with
  | nil =>
      rw [List.foldlM_nil] at h
      cases h
      exact ⟨hrefl _, fun a ha => absurd ha List.not_mem_nil⟩
  | cons a l ih =>
      obtain ⟨b', hfirst, hrest⟩ := foldlM_cons_eq_ok.mp h
      have hR : R b b' := hstep b a b' List.mem_cons_self (hrefl b) hfirst
      obtain ⟨hR', hpass⟩ := ih
        (fun b₁ a b₂ ha h₁ hf =>
          hstep b₁ a b₂ (List.mem_cons_of_mem _ ha) (htrans _ _ _ hR h₁) hf) hrest
      refine ⟨htrans _ _ _ hR hR', ?_⟩
      intro a' ha'
      rcases List.mem_cons.mp ha' with rfl | ha'
      · exact ⟨b, b', hrefl b, hfirst, hR'⟩
      · obtain ⟨b₁, b₂, h₁, hf, h₂⟩ := hpass a' ha'
        exact ⟨b₁, b₂, htrans _ _ _ hR h₁, hf, h₂⟩

/-- The same for a fold that cannot fail. -/
theorem foldl_passes (hrefl : ∀ b, R b b) (htrans : ∀ a b c, R a b → R b c → R a c)
    {f : β → α → β} {l : List α} (b : β) (hstep : ∀ b₁ a, a ∈ l → R b b₁ → R b₁ (f b₁ a)) :
    R b (l.foldl f b) ∧ ∀ a ∈ l, ∃ b₁, R b b₁ ∧ R (f b₁ a) (l.foldl f b) := by
  induction l generalizing b with
  | nil => exact ⟨hrefl b, fun a ha => absurd ha List.not_mem_nil⟩
  | cons a l ih =>
      have hR : R b (f b a) := hstep b a List.mem_cons_self (hrefl b)
      obtain ⟨hR', hpass⟩ := ih (f b a)
        fun b₁ a ha h₁ => hstep b₁ a (List.mem_cons_of_mem _ ha) (htrans _ _ _ hR h₁)
      refine ⟨htrans _ _ _ hR hR', ?_⟩
      intro a' ha'
      rcases List.mem_cons.mp ha' with rfl | ha'
      · exact ⟨b, hrefl b, hR'⟩
      · obtain ⟨b₁, h₁, h₂⟩ := hpass a' ha'
        exact ⟨b₁, htrans _ _ _ hR h₁, h₂⟩

end StreamVerdict
