/-
  Which drafts become bodies.

  A draft becomes a body if every value that it reads is defined and no merge leads back to
  itself.  Values may be read before they are defined, so that merges can form any graph; the
  merge that is reported lies on a circle, and does not merely lead into one.  A search that
  takes one value after the other from a stack, and looks each up in the symbol table, comes to
  the same answer as following the links of the merges.  The merges of an accepted body form no
  circle, so that following them always comes to an end.
-/
import Mathlib.Logic.Relation
import StreamVerdict.Data.Iterate
import StreamVerdict.Proofs.Body.SingleAssignment
import StreamVerdict.Proofs.Data.Reach

namespace StreamVerdict

open Relation

namespace Body

variable {b : Body} {v u : ValueNumber}

/-- The merge that defines `v` has `u` among the values that it merges. -/
def Merges (b : Body) (v u : ValueNumber) : Prop := ∃ p, b.phi? v = some p ∧ u ∈ p.uses

/-- Following merges leads from the value back to itself. -/
def Circular (b : Body) (v : ValueNumber) : Prop := TransGen b.Merges v v

/-- Every value that an instruction or a merge reads is defined. -/
structure Closed (b : Body) : Prop where
  instructions : ∀ ins ∈ b.instructions, ∀ v ∈ ins.uses, b.symbols.get? v ≠ none
  phis : ∀ p ∈ b.phis, ∀ v ∈ p.uses, b.symbols.get? v ≠ none

theorem Closed.get?_of_read (h : b.Closed)
    (hv : v ∈ b.instructions.flatMap Instruction.uses ++ b.phis.flatMap Phi.uses) :
    b.symbols.get? v ≠ none := by
  rw [List.mem_append, List.mem_flatMap, List.mem_flatMap] at hv
  rcases hv with ⟨ins, hins, hv⟩ | ⟨p, hp, hv⟩
  · exact h.instructions ins hins v hv
  · exact h.phis p hp v hv

theorem phi?_eq_some {p : Phi} (h : b.phi? v = some p) :
    ∃ j, b.symbols.get? v = some (.phi j) ∧ b.phis[j]? = some p := by
  rw [phi?] at h
  split at h
  · next j hget => exact ⟨j, hget, h⟩
  · cases h

/-- Links that lead from each merge to what it merges are the links that the body has. -/
theorem leads_eq_merges {links : List (ValueNumber × List ValueNumber)}
    (h : ∀ v, Reach.next? links v = (b.phi? v).map Phi.uses) : Reach.Leads links = b.Merges := by
  funext v u
  rw [Reach.Leads, Reach.follow, h, Merges]
  cases b.phi? v <;> simp

end Body

namespace Draft

variable {method : MethodRef} {isStatic : Bool} {d : Draft} {v : ValueNumber}

/-! ### Merges -/

theorem InStep.next?_phiLinks (h : d.InStep) (v : ValueNumber) :
    Reach.next? d.phiLinks v = (d.body.phi? v).map Phi.uses := by
  have hfind : d.phis.find? (fun p => p.result = v) = d.body.phi? v := by
    cases hphi : d.body.phi? v with
    | some p =>
        obtain ⟨hp, hv⟩ := h.tables.phi?_iff.mp hphi
        cases hfind : d.phis.find? (fun p => p.result = v) with
        | none => simpa [hv] using List.find?_eq_none.mp hfind p hp
        | some q =>
            -- The table has one merge for a value.
            have hq : d.body.phi? v = some q :=
              h.tables.phi?_iff.mpr ⟨List.mem_of_find?_eq_some hfind, by
                simpa using List.find?_some hfind⟩
            rw [← hq, hphi]
    | none =>
        rw [List.find?_eq_none]
        intro p hp hv
        rw [h.tables.phi?_iff.mpr ⟨hp, by simpa using hv⟩] at hphi
        cases hphi
  rw [Reach.next?, phiLinks, List.find?_map, ← hfind, Option.map_map]
  rfl

/-- The search from a merge tells whether the merge leads back to itself. -/
theorem InStep.onCycle_iff (h : d.InStep) {p : Phi} (hp : p ∈ d.phis) :
    d.onCycle p ↔ d.body.Circular p.result := by
  have hphi : d.body.phi? p.result = some p := h.tables.phi?_iff.mpr ⟨hp, rfl⟩
  rw [onCycle, decide_eq_true_iff, Reach.mem_visit_iff, Body.Circular, TransGen.head'_iff,
    Reach.Reaches, Body.leads_eq_merges h.next?_phiLinks]
  simp [Body.Merges, hphi]

/-- If no merge leads back to itself, following merges comes to an end. -/
theorem InStep.wellFounded_merges (h : d.InStep)
    (hnone : ∀ p ∈ d.phis, ¬ d.body.Circular p.result) :
    WellFounded fun u v => d.body.Merges v u := by
  have hleads := Body.leads_eq_merges h.next?_phiLinks
  rw [← hleads]
  apply Reach.wellFounded_of_no_circle
  intro v hcircle
  rw [hleads] at hcircle
  -- Only merges lead on, so that a circle goes through a merge.
  obtain ⟨u, ⟨p, hphi, -⟩, -⟩ := TransGen.head'_iff.mp hcircle
  obtain ⟨hp, rfl⟩ := h.tables.phi?_iff.mp hphi
  exact hnone p hp hcircle

/-! ### The way back, value by value -/

/-- A search for a way from a value back to it: the values that were seen, and a stack of those
    that are still to be followed. -/
structure WayBack where
  seen : List ValueNumber
  stack : List ValueNumber

namespace WayBack

variable {b : Body} {w : WayBack} {target v u : ValueNumber} {rest uses : List ValueNumber}

/-- Nothing was seen, but there is the value to begin with. -/
def start (target : ValueNumber) : WayBack := ⟨[], [target]⟩

/-- A value comes on the stack when it is seen for the first time. -/
def see (w : WayBack) (u : ValueNumber) : WayBack :=
  if u ∈ w.seen then w else ⟨u :: w.seen, u :: w.stack⟩

/-- Sees the values that a merge has, up to the one that is sought. -/
def seeAll (target : ValueNumber) : List ValueNumber → WayBack → WayBack ⊕ Bool
  | [], w => .inl w
  | u :: us, w => if u = target then .inr true else seeAll target us (w.see u)

/-- Takes the top of the stack, and sees what it merges if the table says that it is a merge.  The
    search ends at the value that it began with, or when nothing is left to be followed. -/
def step (b : Body) (target : ValueNumber) (w : WayBack) : WayBack ⊕ Bool :=
  match w.stack with
  | [] => .inr false
  | v :: rest =>
    match b.phi? v with
    | some p => seeAll target p.uses { w with stack := rest }
    | none => .inl { w with stack := rest }

/-- How many steps there can still be: the values that were not seen yet, and the stack. -/
def pending (b : Body) (w : WayBack) : Nat :=
  ((b.phis.flatMap Phi.uses).filter fun u => u ∉ w.seen).length + w.stack.length

theorem seeAll_eq (target : ValueNumber) (uses : List ValueNumber) (w : WayBack) :
    seeAll target uses w = if target ∈ uses then .inr true else .inl (uses.foldl see w) := by
  induction uses generalizing w with
  | nil => rfl
  | cons u us ih =>
      rw [seeAll]
      by_cases hu : u = target
      · rw [if_pos hu, if_pos (hu ▸ List.mem_cons_self)]
      · have hmem : target ∈ u :: us ↔ target ∈ us := by
          simp [Ne.symm hu]
        rw [if_neg hu, ih, List.foldl_cons]
        simp only [hmem]

/-- A step drops a value that is no merge, comes back to the value that is sought, or follows a
    merge to what it did not see before. -/
theorem step_cases (b : Body) (target : ValueNumber) (hstack : w.stack = v :: rest) :
    (b.phi? v = none ∧ w.step b target = .inl { w with stack := rest }) ∨
    (b.Merges v target ∧ w.step b target = .inr true) ∨
    ∃ p, b.phi? v = some p ∧ target ∉ p.uses ∧
      w.step b target = .inl (p.uses.foldl see { w with stack := rest }) := by
  simp only [step, hstack]
  cases hphi : b.phi? v with
  | none => exact Or.inl ⟨rfl, rfl⟩
  | some p =>
      simp only [seeAll_eq]
      by_cases hback : target ∈ p.uses
      · exact Or.inr (Or.inl ⟨⟨p, hphi, hback⟩, if_pos hback⟩)
      · exact Or.inr (Or.inr ⟨p, rfl, hback, if_neg hback⟩)

theorem mem_seen_see : v ∈ (w.see u).seen ↔ v = u ∨ v ∈ w.seen := by
  rw [see]
  split
  · next hseen =>
    constructor
    · exact Or.inr
    · rintro (rfl | hv)
      · exact hseen
      · exact hv
  · exact List.mem_cons

theorem mem_seen_foldl : v ∈ (uses.foldl see w).seen ↔ v ∈ uses ∨ v ∈ w.seen := by
  induction uses generalizing w with
  | nil => simp
  | cons u us ih => rw [List.foldl_cons, ih, mem_seen_see, List.mem_cons, or_left_comm, or_assoc]

/-- What was on the stack stays there, and what is seen for the first time comes there. -/
theorem mem_stack_foldl :
    v ∈ (uses.foldl see w).stack ↔ v ∈ w.stack ∨ v ∈ uses ∧ v ∉ w.seen := by
  induction uses generalizing w with
  | nil => simp
  | cons u us ih =>
      rw [List.foldl_cons, ih, mem_seen_see, List.mem_cons]
      by_cases hseen : u ∈ w.seen
      · rw [see, if_pos hseen]
        grind
      · rw [see, if_neg hseen, List.mem_cons]
        grind

theorem pending_see_le (hu : u ∈ b.phis.flatMap Phi.uses) :
    (w.see u).pending b ≤ w.pending b := by
  rw [see]
  split
  · exact Nat.le_refl _
  · next hseen =>
    -- One value more on the stack is one value less that was not seen.
    have hless : ((b.phis.flatMap Phi.uses).filter fun x => x ∉ u :: w.seen).length <
        ((b.phis.flatMap Phi.uses).filter fun x => x ∉ w.seen).length := by
      have hsplit : ∀ x, decide (x ∉ u :: w.seen) = (decide (x ≠ u) && decide (x ∉ w.seen)) := by
        intro x
        simp
      simp only [hsplit]
      rw [← List.filter_filter, List.length_filter_lt_length_iff_exists]
      exact ⟨u, List.mem_filter.mpr ⟨hu, decide_eq_true hseen⟩, by simp⟩
    simp only [pending, List.length_cons]
    omega

theorem pending_foldl_le (huses : ∀ u ∈ uses, u ∈ b.phis.flatMap Phi.uses) :
    (uses.foldl see w).pending b ≤ w.pending b := by
  induction uses generalizing w with
  | nil => exact Nat.le_refl _
  | cons u us ih =>
      rw [List.foldl_cons]
      exact (ih fun x hx => huses x (List.mem_cons_of_mem u hx)).trans
        (pending_see_le (huses u List.mem_cons_self))

theorem pending_step_lt {w' : WayBack} (hstep : w.step b target = .inl w') :
    w'.pending b < w.pending b := by
  cases hstack : w.stack with
  | nil =>
      rw [step, hstack] at hstep
      cases hstep
  | cons v rest =>
      have hdrop : pending b { w with stack := rest } < w.pending b := by
        simp only [pending, hstack, List.length_cons]
        exact Nat.lt_succ_self _
      rcases step_cases b target hstack with ⟨-, heq⟩ | ⟨-, heq⟩ | ⟨p, hphi, -, heq⟩
      · cases heq.symm.trans hstep
        exact hdrop
      · cases heq.symm.trans hstep
      · cases heq.symm.trans hstep
        obtain ⟨j, -, hp⟩ := Body.phi?_eq_some hphi
        refine Nat.lt_of_le_of_lt (pending_foldl_le ?_) hdrop
        intro u hu
        exact List.mem_flatMap.mpr ⟨p, List.mem_of_getElem? hp, hu⟩

/-- A search from `target` that did not come back yet: it keeps to what merges lead to, and what
    it took off the stack leads only to what was seen. -/
structure From (b : Body) (target : ValueNumber) (w : WayBack) : Prop where
  reached : ∀ u ∈ w.seen, TransGen b.Merges target u
  stacked : ∀ u ∈ w.stack, u = target ∨ u ∈ w.seen
  followed : ∀ v, v = target ∨ v ∈ w.seen → v ∈ w.stack ∨ ∀ u, b.Merges v u → u ∈ w.seen
  away : target ∉ w.seen

theorem From.start (b : Body) (target : ValueNumber) : (WayBack.start target).From b target where
  reached := fun u hu => absurd hu List.not_mem_nil
  stacked := fun u hu => Or.inl (List.mem_singleton.mp hu)
  followed := by
    rintro v (rfl | hv)
    · exact Or.inl List.mem_cons_self
    · cases hv
  away := List.not_mem_nil

theorem From.reaches (h : w.From b target) (hv : v ∈ w.stack) : ReflTransGen b.Merges target v := by
  rcases h.stacked v hv with rfl | hseen
  · exact .refl
  · exact (h.reached v hseen).to_reflTransGen

theorem From.step {w' : WayBack} (h : w.From b target) (hstep : w.step b target = .inl w') :
    w'.From b target := by
  cases hstack : w.stack with
  | nil =>
      rw [WayBack.step, hstack] at hstep
      cases hstep
  | cons v rest =>
      have hv : v ∈ w.stack := hstack ▸ List.mem_cons_self
      have hrest : ∀ u ∈ rest, u = target ∨ u ∈ w.seen := fun u hu =>
        h.stacked u (hstack ▸ List.mem_cons_of_mem v hu)
      have hfollowed : ∀ x, x = target ∨ x ∈ w.seen → x = v ∨ x ∈ rest ∨
          ∀ u, b.Merges x u → u ∈ w.seen := by
        intro x hx
        have hx := h.followed x hx
        rwa [hstack, List.mem_cons, or_assoc] at hx
      rcases step_cases b target hstack with ⟨hphi, heq⟩ | ⟨-, heq⟩ | ⟨p, hphi, hback, heq⟩
      · cases heq.symm.trans hstep
        refine ⟨h.reached, hrest, ?_, h.away⟩
        intro x hx
        rcases hfollowed x hx with rfl | hx
        · -- A value without a merge leads nowhere.
          refine Or.inr ?_
          rintro u ⟨p, hp, -⟩
          cases hphi.symm.trans hp
        · exact hx
      · cases heq.symm.trans hstep
      · cases heq.symm.trans hstep
        have hmerges : ∀ u ∈ p.uses, TransGen b.Merges target u := fun u hu =>
          TransGen.tail' (h.reaches hv) ⟨p, hphi, hu⟩
        refine ⟨?_, ?_, ?_, ?_⟩
        · intro u hu
          rcases mem_seen_foldl.mp hu with hnew | hold
          · exact hmerges u hnew
          · exact h.reached u hold
        · intro u hu
          rw [mem_seen_foldl]
          rcases mem_stack_foldl.mp hu with hold | ⟨hnew, -⟩
          · exact (hrest u hold).imp_right Or.inr
          · exact Or.inr (Or.inl hnew)
        · intro x hx
          rw [mem_stack_foldl]
          simp only [mem_seen_foldl] at hx ⊢
          by_cases hold : x = target ∨ x ∈ w.seen
          · rcases hfollowed x hold with rfl | hrest | hall
            · refine Or.inr ?_
              rintro u ⟨q, hq, hu⟩
              cases hphi.symm.trans hq
              exact Or.inl hu
            · exact Or.inl (Or.inl hrest)
            · exact Or.inr fun u hu => Or.inr (hall u hu)
          · -- What is seen for the first time is on the stack.
            rw [not_or] at hold
            rcases hx with hx | hx | hx
            · exact absurd hx hold.1
            · exact Or.inl (Or.inr ⟨hx, hold.2⟩)
            · exact absurd hx hold.2
        · rw [mem_seen_foldl]
          exact not_or.mpr ⟨hback, h.away⟩

/-- The answer at the end of a search is right. -/
theorem From.answer {answer : Bool} (h : w.From b target)
    (hstep : w.step b target = .inr answer) : answer = true ↔ b.Circular target := by
  cases hstack : w.stack with
  | nil =>
      rw [WayBack.step, hstack] at hstep
      cases hstep
      have hfollowed := h.followed
      simp only [hstack, List.not_mem_nil, false_or] at hfollowed
      -- Everything that merges lead to was seen, and that is not where the search began.
      have hseen : ∀ u, TransGen b.Merges target u → u ∈ w.seen := by
        intro u hu
        induction hu with
        | single hu => exact hfollowed target (Or.inl rfl) _ hu
        | tail _ hu ih => exact hfollowed _ (Or.inr ih) _ hu
      simp only [Bool.false_eq_true, false_iff]
      exact fun hcircle => h.away (hseen target hcircle)
  | cons v rest =>
      have hv : v ∈ w.stack := hstack ▸ List.mem_cons_self
      rcases step_cases b target hstack with ⟨-, heq⟩ | ⟨hback, heq⟩ | ⟨p, -, -, heq⟩
      · cases heq.symm.trans hstep
      · cases heq.symm.trans hstep
        exact iff_of_true rfl (TransGen.tail' (h.reaches hv) hback)
      · cases heq.symm.trans hstep

/-- A search comes to an end with the right answer. -/
theorem From.run (h : w.From b target) :
    ∃ n ≤ w.pending b + 1, ∃ answer, iterate (WayBack.step b target) n w = .inr answer ∧
      (answer = true ↔ b.Circular target) := by
  generalize hbound : w.pending b = bound
  induction bound using Nat.strongRecOn generalizing w with
  | ind bound ih =>
      cases hstep : w.step b target with
      | inr answer =>
          refine ⟨1, Nat.le_add_left 1 bound, answer, ?_, h.answer hstep⟩
          rw [iterate, hstep]
      | inl w' =>
          have hless := pending_step_lt hstep
          rw [hbound] at hless
          obtain ⟨n, hn, answer, hend, hanswer⟩ := ih _ hless (h.step hstep) rfl
          refine ⟨n + 1, Nat.succ_le_succ (Nat.le_trans hn hless), answer, ?_, hanswer⟩
          rw [iterate, hstep]
          exact hend

end WayBack

/-- The search with a stack comes to the answer of the search over the links. -/
theorem InStep.wayBack_eq_onCycle (h : d.InStep) {p : Phi} (hp : p ∈ d.phis) :
    ∃ n ≤ (d.phis.flatMap Phi.uses).length + 2,
      iterate (WayBack.step d.body p.result) n (WayBack.start p.result) = .inr (d.onCycle p) := by
  obtain ⟨n, hn, answer, hend, hanswer⟩ := (WayBack.From.start d.body p.result).run
  refine ⟨n, ?_, ?_⟩
  · simpa [WayBack.pending, WayBack.start, body] using hn
  · rw [hend, Bool.eq_iff_iff.mpr (hanswer.trans (h.onCycle_iff hp).symm)]

/-! ### Outcomes -/

/-- The first value that is read and not defined. -/
def firstUndefined? (d : Draft) : Option ValueNumber :=
  d.reads.find? fun v => (d.symbols.get? v).isNone

theorem firstUndefined?_eq_none_iff : d.firstUndefined? = none ↔ d.body.Closed := by
  simp only [firstUndefined?, List.find?_eq_none, Option.isNone_iff_eq_none]
  constructor
  · intro hreads
    simp only [reads, List.mem_append, List.mem_flatMap] at hreads
    exact ⟨fun ins hins v hv => hreads v (Or.inl ⟨ins, hins, hv⟩),
      fun p hp v hv => hreads v (Or.inr ⟨p, hp, hv⟩)⟩
  · exact fun hclosed v hv => hclosed.get?_of_read hv

theorem firstUndefined?_eq_some_iff :
    d.firstUndefined? = some v ↔
      ∃ before after, d.reads = before ++ v :: after ∧ d.symbols.get? v = none ∧
        ∀ u ∈ before, d.symbols.get? u ≠ none := by
  simp only [firstUndefined?, List.find?_eq_some_iff_append, Option.isNone_iff_eq_none,
    Bool.not_eq_true', Option.isNone_eq_false_iff, Option.isSome_iff_ne_none]
  constructor
  · rintro ⟨hv, before, after, hreads, hbefore⟩
    exact ⟨before, after, hreads, hv, hbefore⟩
  · rintro ⟨before, after, hreads, hv, hbefore⟩
    exact ⟨hv, before, after, hreads, hbefore⟩

theorem InStep.find?_onCycle_eq_none_iff (h : d.InStep) :
    d.phis.find? d.onCycle = none ↔ ∀ p ∈ d.phis, ¬ d.body.Circular p.result := by
  rw [List.find?_eq_none]
  exact forall₂_congr fun p hp => not_congr (h.onCycle_iff hp)

theorem InStep.find?_onCycle_eq_some_iff (h : d.InStep) {p : Phi} :
    d.phis.find? d.onCycle = some p ↔
      ∃ before after, d.phis = before ++ p :: after ∧ d.body.Circular p.result ∧
        ∀ q ∈ before, ¬ d.body.Circular q.result := by
  have hfirst : ∀ before after, d.phis = before ++ p :: after →
      ((d.onCycle p ∧ ∀ q ∈ before, (!d.onCycle q) = true) ↔
        d.body.Circular p.result ∧ ∀ q ∈ before, ¬ d.body.Circular q.result) := by
    intro before after hphis
    have hp : p ∈ d.phis := by simp [hphis]
    have hbefore : ∀ q ∈ before, q ∈ d.phis := fun q hq => by simp [hphis, hq]
    refine and_congr (h.onCycle_iff hp) (forall₂_congr fun q hq => ?_)
    rw [← h.onCycle_iff (hbefore q hq), Bool.not_eq_true', Bool.not_eq_true]
  rw [List.find?_eq_some_iff_append]
  constructor
  · rintro ⟨hp, before, after, hphis, hbefore⟩
    exact ⟨before, after, hphis, (hfirst before after hphis).mp ⟨hp, hbefore⟩⟩
  · rintro ⟨before, after, hphis, hcircular⟩
    obtain ⟨hp, hbefore⟩ := (hfirst before after hphis).mpr hcircular
    exact ⟨hp, before, after, hphis, hbefore⟩

/-- A draft has one of three outcomes. -/
theorem finish_eq (d : Draft) :
    d.finish =
      match d.firstUndefined?, d.phis.find? d.onCycle with
      | some v, _ => .error (.undefinedValue d.method v)
      | none, some p => .error (.cyclicPhi d.method p.result)
      | none, none => .ok d.body := by
  rw [finish, firstUndefined?]
  cases d.reads.find? (fun v => (d.symbols.get? v).isNone) with
  | some v => rfl
  | none => cases d.phis.find? d.onCycle <;> rfl

theorem finish_eq_undefinedValue_iff :
    d.finish = .error (.undefinedValue d.method v) ↔ d.firstUndefined? = some v := by
  rw [finish_eq]
  cases d.firstUndefined? <;> cases d.phis.find? d.onCycle <;> simp

theorem finish_eq_cyclicPhi_iff :
    d.finish = .error (.cyclicPhi d.method v) ↔
      d.firstUndefined? = none ∧ ∃ p, d.phis.find? d.onCycle = some p ∧ p.result = v := by
  rw [finish_eq]
  cases d.firstUndefined? <;> cases d.phis.find? d.onCycle <;> simp

theorem finish_eq_ok_iff {b : Body} :
    d.finish = .ok b ↔ d.firstUndefined? = none ∧ d.phis.find? d.onCycle = none ∧ b = d.body := by
  rw [finish_eq]
  cases d.firstUndefined? <;> cases d.phis.find? d.onCycle <;> simp [eq_comm]

/-- In the body that a draft becomes, following merges comes to an end. -/
theorem Written.wellFounded_merges (h : Written method isStatic d) {b : Body}
    (hb : d.finish = .ok b) : WellFounded fun u v => b.Merges v u := by
  obtain ⟨-, hno, rfl⟩ := finish_eq_ok_iff.mp hb
  exact h.inStep.wellFounded_merges (h.inStep.find?_onCycle_eq_none_iff.mp hno)

/-- A draft becomes a body exactly if it is closed and no merge leads back to itself.  If it is
    not closed, the error names the first value that is read and not defined, where instructions
    come before merges.  If it is closed, the error names the first merge that leads back to
    itself.  A search with a stack, through the symbol table, comes to that answer for each merge
    in a bounded number of steps.  In the body that a draft becomes, the relation of a merge to
    what it merges is well-founded, and all its numbers fit if there are fewer values, and not
    more instructions, than words of 32 bits. -/
theorem finish_outcome (method : MethodRef) (isStatic : Bool) (d : Draft)
    (h : Written method isStatic d) :
    ((∃ v, d.finish = .error (.undefinedValue method v)) ↔ ¬ d.body.Closed) ∧
    (∀ v, d.finish = .error (.undefinedValue method v) ↔
      ∃ before after,
        d.instructions.flatMap Instruction.uses ++ d.phis.flatMap Phi.uses = before ++ v :: after ∧
        d.symbols.get? v = none ∧ ∀ u ∈ before, d.symbols.get? u ≠ none) ∧
    ((∃ v, d.finish = .error (.cyclicPhi method v)) ↔
      d.body.Closed ∧ ∃ p ∈ d.phis, d.body.Circular p.result) ∧
    (∀ v, d.finish = .error (.cyclicPhi method v) ↔ d.body.Closed ∧
      ∃ before p after, d.phis = before ++ p :: after ∧ p.result = v ∧ d.body.Circular v ∧
        ∀ q ∈ before, ¬ d.body.Circular q.result) ∧
    ((∃ b, d.finish = .ok b) ↔
      d.body.Closed ∧ ∀ p ∈ d.phis, ¬ d.body.Circular p.result) ∧
    (∀ p ∈ d.phis, ∃ n ≤ (d.phis.flatMap Phi.uses).length + 2,
      iterate (WayBack.step d.body p.result) n (WayBack.start p.result) = .inr (d.onCycle p)) ∧
    ∀ b, d.finish = .ok b → b = d.body ∧ (WellFounded fun u v => b.Merges v u) ∧
      (b.symbols.size < UInt32.size → b.instructions.length ≤ UInt32.size → b.Fits) := by
  obtain rfl := h.kept.1
  have hstep := h.inStep
  have hnone := hstep.find?_onCycle_eq_none_iff
  refine ⟨?_, ?_, ?_, ?_, ?_, fun p hp => hstep.wayBack_eq_onCycle hp, ?_⟩
  · simp only [finish_eq_undefinedValue_iff, ← firstUndefined?_eq_none_iff,
      ← Option.isSome_iff_exists, Option.isSome_iff_ne_none, ne_eq]
  · intro v
    rw [finish_eq_undefinedValue_iff]
    exact firstUndefined?_eq_some_iff
  · simp only [finish_eq_cyclicPhi_iff, firstUndefined?_eq_none_iff]
    constructor
    · rintro ⟨v, hclosed, p, hfind, -⟩
      have hp : p ∈ d.phis := List.mem_of_find?_eq_some hfind
      exact ⟨hclosed, p, hp, (hstep.onCycle_iff hp).mp (List.find?_some hfind)⟩
    · rintro ⟨hclosed, p, hp, hcircular⟩
      cases hfind : d.phis.find? d.onCycle with
      | none => exact absurd hcircular (hnone.mp hfind p hp)
      | some q => exact ⟨q.result, hclosed, q, rfl, rfl⟩
  · intro v
    simp only [finish_eq_cyclicPhi_iff, firstUndefined?_eq_none_iff,
      hstep.find?_onCycle_eq_some_iff]
    refine and_congr_right fun _ => ⟨?_, ?_⟩
    · rintro ⟨p, ⟨before, after, hphis, hcircular, hbefore⟩, rfl⟩
      exact ⟨before, p, after, hphis, rfl, hcircular, hbefore⟩
    · rintro ⟨before, p, after, hphis, rfl, hcircular, hbefore⟩
      exact ⟨p, ⟨before, after, hphis, hcircular, hbefore⟩, rfl⟩
  · simp only [finish_eq_ok_iff, firstUndefined?_eq_none_iff, hnone, exists_and_left,
      exists_eq, and_true]
  · intro b hb
    refine ⟨finish_eq_ok hb, h.wellFounded_merges hb, ?_⟩
    intro hsize hinstructions
    obtain ⟨hnone, -, rfl⟩ := finish_eq_ok_iff.mp hb
    have hclosed := firstUndefined?_eq_none_iff.mp hnone
    refine hstep.tables.fits hsize hinstructions ?_
    -- What is read is defined, and so among the first words.
    intro v hv
    obtain ⟨e, he⟩ := Option.ne_none_iff_exists'.mp (hclosed.get?_of_read hv)
    exact Nat.lt_of_le_of_lt (hstep.tables.le_size he) hsize

/-! ### Drafts that are accepted, that are not closed, and that run in a circle -/

namespace Till

/-- The merge comes first, and the instruction is read first. -/
def loose : Draft := ((start tally true).phi [8]).2.ret (some 9) 1

/-- The first merge leads into the circle of the other two. -/
def circling : Draft := ((((start setUp true).phi [2]).2.phi [3]).2.phi [2]).2

theorem finished : draft.finish = .ok draft.body := by decide +kernel

/-- Of three drafts one is accepted, one fails at what its instruction reads, and one fails at
    its second merge, as the first one is on no circle. -/
theorem finish_outcome_till :
    (Written tally false draft ∧ ∃ b, draft.finish = .ok b ∧
      (WellFounded fun u v => b.Merges v u) ∧ b.Fits) ∧
    (Written tally true loose ∧ ¬ loose.body.Closed ∧
      loose.finish = .error (.undefinedValue tally 9)) ∧
    Written setUp true circling ∧ circling.body.Closed ∧
      circling.body.Circular 2 ∧ ¬ circling.body.Circular 1 ∧
      circling.finish = .error (.cyclicPhi setUp 2) ∧
      (∃ n ≤ 5, iterate (WayBack.step circling.body 2) n (WayBack.start 2) = .inr true) ∧
      ∃ n ≤ 5, iterate (WayBack.step circling.body 1) n (WayBack.start 1) = .inr false := by
  have hloose : Written tally true loose := (Written.start.phi _).ret _ _
  have hcircling : Written setUp true circling := ((Written.start.phi _).phi _).phi _
  obtain ⟨-, -, -, -, -, -, haccepted⟩ := finish_outcome tally false draft written
  obtain ⟨hopen, hfirst, -⟩ := finish_outcome tally true loose hloose
  obtain ⟨-, -, -, hcircle, -, hsearch, -⟩ := finish_outcome setUp true circling hcircling
  have hnine : loose.finish = .error (.undefinedValue tally 9) :=
    (hfirst 9).mpr ⟨[], [8], rfl, rfl, by simp⟩
  have htwo : circling.finish = .error (.cyclicPhi setUp 2) := by decide +kernel
  obtain ⟨hclosed, before, p, after, hphis, hp, htwice, hbefore⟩ := (hcircle 2).mp htwo
  obtain ⟨-, hends, hfits⟩ := haccepted _ finished
  have hback : circling.onCycle ⟨2, [3]⟩ = true := by decide +kernel
  have hnever : circling.onCycle ⟨1, [2]⟩ = false := by decide +kernel
  refine ⟨⟨written, _, finished, hends, hfits (by decide +kernel) (by decide +kernel)⟩,
    ⟨hloose, hopen.mp ⟨9, hnine⟩, hnine⟩, hcircling, hclosed, htwice, ?_, htwo,
    hback ▸ hsearch ⟨2, [3]⟩ (by decide +kernel), hnever ▸ hsearch ⟨1, [2]⟩ (by decide +kernel)⟩
  -- The first merge comes before the one that is named.
  have hmerges : [⟨1, [2]⟩, ⟨2, [3]⟩, ⟨3, [2]⟩] = before ++ p :: after := hphis
  cases before with
  | nil =>
      obtain rfl := (List.cons.inj hmerges).1
      cases hp
  | cons q before =>
      obtain rfl := (List.cons.inj hmerges).1
      exact hbefore _ List.mem_cons_self

end Till

end Draft
end StreamVerdict
