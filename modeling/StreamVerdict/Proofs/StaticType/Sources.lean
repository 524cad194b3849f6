/-
  A value has the types of its sources.

  The sources of a value are the values without a merge that merges lead to, however the merges
  run: along many paths, in circles, or to positions where there is no merge.  So the types of a
  merge are the types of what it merges, all taken together.  A walk that keeps a stack and
  remembers what it visited finds the same types and comes to an end.  In a drafted body merges
  run in no circle, and a value has a source unless some merge has nothing to merge.
-/
import Mathlib.Logic.Function.Iterate
import StreamVerdict.Proofs.Body.Acceptance
import StreamVerdict.Proofs.Data.OrdSet
import StreamVerdict.Proofs.Data.Order
import StreamVerdict.StaticType.Inference

namespace StreamVerdict

open Relation

namespace Body

variable {b : Body} {v : ValueNumber} {p : Phi}

/-- The links of a body lead from each merge to what it merges, whatever its table says. -/
theorem next?_phiLinks (b : Body) (v : ValueNumber) :
    Reach.next? b.phiLinks v = (b.phi? v).map Phi.uses := by
  have hlink : ∀ l ∈ b.phiLinks, ∃ p, b.phi? l.1 = some p ∧ p.uses = l.2 := by
    intro l hl
    obtain ⟨e, -, hphi⟩ := List.mem_filterMap.mp hl
    obtain ⟨p, hp, rfl⟩ := Option.map_eq_some_iff.mp hphi
    exact ⟨p, hp, rfl⟩
  rw [Reach.next?]
  cases hfind : b.phiLinks.find? (fun l => l.1 = v) with
  | some l =>
      obtain ⟨p, hp, huses⟩ := hlink l (List.mem_of_find?_eq_some hfind)
      have hl : l.1 = v := by simpa using List.find?_some hfind
      rw [← hl, hp, Option.map_some, Option.map_some, huses]
  | none =>
      cases hphi : b.phi? v with
      | none => rfl
      | some p =>
          -- A value with a merge has an entry in the table, and so a link.
          obtain ⟨j, hget, -⟩ := phi?_eq_some hphi
          have hlinked : (v, p.uses) ∈ b.phiLinks := by
            refine List.mem_filterMap.mpr ⟨(v, .phi j), mem_of_lookup hget, ?_⟩
            rw [hphi]
            rfl
          simpa using List.find?_eq_none.mp hfind (v, p.uses) hlinked

/-- Merges lead from the value to a value without a merge. -/
def Source (b : Body) (v w : ValueNumber) : Prop :=
  ReflTransGen b.Merges v w ∧ b.phi? w = none

theorem source_self (h : b.phi? v = none) {w : ValueNumber} : b.Source v w ↔ w = v := by
  constructor
  · rintro ⟨hreach, -⟩
    rcases ReflTransGen.cases_head hreach with rfl | ⟨u, ⟨p, hphi, -⟩, -⟩
    · rfl
    · rw [h] at hphi
      cases hphi
  · rintro rfl
    exact ⟨.refl, h⟩

/-- The sources of a merge are the sources of what it merges. -/
theorem source_phi (h : b.phi? v = some p) {w : ValueNumber} :
    b.Source v w ↔ ∃ u ∈ p.uses, b.Source u w := by
  constructor
  · rintro ⟨hreach, hw⟩
    rcases ReflTransGen.cases_head hreach with rfl | ⟨u, ⟨q, hq, hu⟩, hrest⟩
    · rw [h] at hw
      cases hw
    · rw [h, Option.some.injEq] at hq
      subst hq
      exact ⟨u, hu, hrest, hw⟩
  · rintro ⟨u, hu, hreach, hw⟩
    exact ⟨hreach.head ⟨p, h, hu⟩, hw⟩

/-- In a drafted body every value has a source, unless some merge has nothing to merge. -/
theorem Drafted.exists_source (h : b.Drafted) (huses : ∀ p ∈ b.phis, p.uses ≠ [])
    (v : ValueNumber) : ∃ w, b.Source v w := by
  obtain ⟨method, isStatic, d, hwritten, hb⟩ := h
  -- Each merge has a first value to follow, and following merges comes to an end.
  induction v using (hwritten.wellFounded_merges hb).induction with
  | _ v ih =>
      cases hphi : b.phi? v with
      | none => exact ⟨v, (source_self hphi).mpr rfl⟩
      | some p =>
          obtain ⟨j, -, hp⟩ := phi?_eq_some hphi
          obtain ⟨u, hu⟩ := List.exists_mem_of_ne_nil _ (huses p (List.mem_of_getElem? hp))
          obtain ⟨w, hw⟩ := ih u ⟨p, hphi, hu⟩
          exact ⟨w, (source_phi hphi).mpr ⟨u, hu, hw⟩⟩

end Body

namespace StaticType

variable {b : Body} {oracle : ValueNumber → StaticType} {v : ValueNumber}

/-! ### Possible types -/

theorem mem_sources_iff {w : ValueNumber} : w ∈ sources b v ↔ b.Source v w := by
  rw [sources, List.mem_filter, Reach.mem_visit_iff, Reach.Reaches,
    Body.leads_eq_merges b.next?_phiLinks, Option.isNone_iff_eq_none]
  simp [Body.Source]

theorem mem_possible_iff {t : StaticType} :
    t ∈ possible b oracle v ↔ ∃ w, b.Source v w ∧ oracle w = t := by
  simp [possible, mem_sources_iff]

theorem isEmpty_possible (oracle : ValueNumber → StaticType) (h : ∃ w, b.Source v w) :
    (possible b oracle v).isEmpty = false := by
  obtain ⟨w, hw⟩ := h
  have hmem : oracle w ∈ (possible b oracle v).toList := mem_possible_iff.mpr ⟨w, hw, rfl⟩
  rw [OrdSet.isEmpty, List.isEmpty_eq_false_iff]
  exact List.ne_nil_of_mem hmem

/-! ### A walk with a stack -/

/-- What was visited, what is still to visit, and the types found. -/
structure Walk where
  visited : List ValueNumber
  stack : List ValueNumber
  found : OrdSet StaticType

namespace Walk

/-- Nothing was visited but there is a value to begin with. -/
def start (v : ValueNumber) : Walk := ⟨[], [v], ∅⟩

/-- Takes the top of the stack.  If it was not visited before, what it merges comes on the stack,
    or else its type is found. -/
def step (b : Body) (oracle : ValueNumber → StaticType) (w : Walk) : Walk :=
  match w.stack with
  | [] => w
  | v :: rest =>
    if v ∈ w.visited then { w with stack := rest }
    else
      match b.phi? v with
      | some p => { w with visited := v :: w.visited, stack := p.uses.reverse ++ rest }
      | none => ⟨v :: w.visited, rest, w.found.insert (oracle v)⟩

/-- How many steps there can still be: the links that were not followed yet, and the stack. -/
def pending (b : Body) (w : Walk) : Nat :=
  Reach.extent (Reach.spent b.phiLinks w.visited) + w.stack.length

variable {w : Walk} {rest : List ValueNumber} {v₀ : ValueNumber}

/-- A step drops a value that was visited, follows a merge, or finds a type. -/
theorem step_cases (b : Body) (oracle : ValueNumber → StaticType) (hstack : w.stack = v :: rest) :
    (v ∈ w.visited ∧ w.step b oracle = { w with stack := rest }) ∨
    (v ∉ w.visited ∧ ∃ p, b.phi? v = some p ∧ w.step b oracle =
      { w with visited := v :: w.visited, stack := p.uses.reverse ++ rest }) ∨
    (v ∉ w.visited ∧ b.phi? v = none ∧ w.step b oracle =
      ⟨v :: w.visited, rest, w.found.insert (oracle v)⟩) := by
  simp only [step, hstack]
  by_cases hv : v ∈ w.visited
  · exact Or.inl ⟨hv, if_pos hv⟩
  · rw [if_neg hv]
    cases hphi : b.phi? v with
    | some p => exact Or.inr (Or.inl ⟨hv, p, rfl, rfl⟩)
    | none => exact Or.inr (Or.inr ⟨hv, rfl, rfl⟩)

theorem pending_step_lt (b : Body) (oracle : ValueNumber → StaticType)
    (hstack : w.stack = v :: rest) :
    (w.step b oracle).pending b < w.pending b := by
  have hnext := Reach.next?_spent b.phiLinks w.visited v
  have hspent := Reach.without_spent b.phiLinks w.visited v
  simp only [pending, hstack, List.length_cons]
  rcases step_cases b oracle hstack with
    ⟨-, hstep⟩ | ⟨hv, p, hphi, hstep⟩ | ⟨hv, hphi, hstep⟩
  · rw [hstep]
    exact Nat.lt_succ_self _
  · -- Following a merge uses up more links than it puts values on the stack.
    rw [if_neg hv, b.next?_phiLinks, hphi, Option.map_some] at hnext
    have hless := Reach.extent_without_lt hnext
    rw [hstep, ← hspent]
    simp only [List.length_append, List.length_reverse]
    omega
  · rw [if_neg hv, b.next?_phiLinks, hphi, Option.map_none] at hnext
    rw [hstep, ← hspent, Reach.without_of_next?_eq_none hnext]
    exact Nat.lt_succ_self _

/-- A walk that began at `v₀`: it keeps to what merges lead to, leaves out nothing that they lead
    to, and has found the types of the sources that it visited. -/
structure From (b : Body) (oracle : ValueNumber → StaticType) (v₀ : ValueNumber) (w : Walk) :
    Prop where
  reached : ∀ u, u ∈ w.visited ∨ u ∈ w.stack → ReflTransGen b.Merges v₀ u
  begun : v₀ ∈ w.visited ∨ v₀ ∈ w.stack
  followed : ∀ u ∈ w.visited, ∀ x, b.Merges u x → x ∈ w.visited ∨ x ∈ w.stack
  found : ∀ t, t ∈ w.found ↔ ∃ u ∈ w.visited, b.phi? u = none ∧ oracle u = t

theorem From.start (b : Body) (oracle : ValueNumber → StaticType) (v : ValueNumber) :
    (Walk.start v).From b oracle v where
  reached := by
    rintro u (hu | hu)
    · cases hu
    · rw [List.mem_singleton.mp hu]
  begun := Or.inr List.mem_cons_self
  followed := fun u hu => absurd hu List.not_mem_nil
  found := by simp [Walk.start]

theorem From.step (h : w.From b oracle v₀) (hstack : w.stack = v :: rest) :
    (w.step b oracle).From b oracle v₀ := by
  obtain ⟨hreached, hbegun, hfollowed, hfound⟩ := h
  simp only [hstack, List.mem_cons] at hreached hbegun hfollowed
  have hv : ReflTransGen b.Merges v₀ v := hreached v (Or.inr (Or.inl rfl))
  rcases step_cases b oracle hstack with
    ⟨hold, hstep⟩ | ⟨hnew, p, hphi, hstep⟩ | ⟨hnew, hphi, hstep⟩
  · rw [hstep]
    refine ⟨?_, ?_, ?_, hfound⟩
    · rintro u (hu | hu)
      · exact hreached u (Or.inl hu)
      · exact hreached u (Or.inr (Or.inr hu))
    · grind
    · grind
  · rw [hstep]
    have hmerges : ∀ x, b.Merges v x ↔ x ∈ p.uses := by
      intro x
      simp [Body.Merges, hphi]
    refine ⟨?_, ?_, ?_, ?_⟩
    · simp only [List.mem_cons, List.mem_append, List.mem_reverse]
      rintro u ((rfl | hu) | (hu | hu))
      · exact hv
      · exact hreached u (Or.inl hu)
      · exact hv.tail ((hmerges u).mpr hu)
      · exact hreached u (Or.inr (Or.inr hu))
    · grind
    · grind
    · intro t
      rw [hfound]
      grind
  · rw [hstep]
    refine ⟨?_, ?_, ?_, ?_⟩
    · simp only [List.mem_cons]
      rintro u ((rfl | hu) | hu)
      · exact hv
      · exact hreached u (Or.inl hu)
      · exact hreached u (Or.inr (Or.inr hu))
    · grind
    · simp only [List.mem_cons]
      rintro u (rfl | hu) x hx
      · obtain ⟨p, hp, -⟩ := hx
        rw [hphi] at hp
        cases hp
      · grind
    · intro t
      rw [OrdSet.mem_insert, hfound]
      grind

/-- A walk comes to an end with all that it was after. -/
theorem From.run (h : w.From b oracle v₀) :
    ∃ n ≤ w.pending b, ((Walk.step b oracle)^[n] w).stack = [] ∧
      ((Walk.step b oracle)^[n] w).From b oracle v₀ := by
  generalize hbound : w.pending b = bound
  induction bound using Nat.strongRecOn generalizing w with
  | ind bound ih =>
      cases hstack : w.stack with
      | nil => exact ⟨0, Nat.zero_le _, hstack, h⟩
      | cons v rest =>
          have hless := pending_step_lt b oracle hstack
          rw [hbound] at hless
          obtain ⟨n, hn, hend⟩ := ih _ hless (h.step hstack) rfl
          exact ⟨n + 1, Nat.lt_of_le_of_lt hn hless, hend⟩

/-- At its end a walk has found the possible types. -/
theorem From.found_eq (h : w.From b oracle v₀) (hend : w.stack = []) :
    w.found = possible b oracle v₀ := by
  have hvisited : ∀ u, u ∈ w.visited ↔ ReflTransGen b.Merges v₀ u := by
    intro u
    refine ⟨fun hu => h.reached u (Or.inl hu), fun hu => ?_⟩
    have hbegun := h.begun
    have hfollowed := h.followed
    simp only [hend, List.not_mem_nil, or_false] at hbegun hfollowed
    induction hu with
    | refl => exact hbegun
    | @tail x y _ hstep ih => exact hfollowed x ih y hstep
  apply OrdSet.ext
  intro t
  rw [h.found, mem_possible_iff]
  simp [Body.Source, hvisited, and_assoc]

end Walk

/-- The possible types of a value are exactly the types of its sources, whatever the merges of the
    body are, and a walk with a stack finds them in a bounded number of steps.  A merge has the
    types of all that it merges, and any other value has its own type alone.  In a drafted body
    whose merges all have something to merge, every value has a possible type, and so a value can
    always be resolved. -/
theorem possible_eq_sources (b : Body) (oracle : ValueNumber → StaticType) (v : ValueNumber) :
    (∀ t, t ∈ possible b oracle v ↔
      ∃ w, ReflTransGen b.Merges v w ∧ b.phi? w = none ∧ oracle w = t) ∧
    (∃ n ≤ Reach.extent b.phiLinks + 1,
      ((Walk.step b oracle)^[n] (Walk.start v)).stack = [] ∧
      ((Walk.step b oracle)^[n] (Walk.start v)).found = possible b oracle v) ∧
    (∀ p, b.phi? v = some p → possible b oracle v =
      OrdSet.ofList (p.uses.flatMap fun u => (possible b oracle u).toList)) ∧
    (b.phi? v = none → (possible b oracle v).toList = [oracle v]) ∧
    (b.Drafted → (∀ p ∈ b.phis, p.uses ≠ []) →
      (possible b oracle v).isEmpty = false ∧
      ∀ h, resolve h b v = .ok (possible b (declared h b) v)) := by
  refine ⟨?_, ?_, ?_, ?_, ?_⟩
  · intro t
    rw [mem_possible_iff]
    simp [Body.Source, and_assoc]
  · obtain ⟨n, hn, hend, hwalk⟩ := (Walk.From.start b oracle v).run
    refine ⟨n, ?_, hend, hwalk.found_eq hend⟩
    simpa [Walk.pending, Walk.start, Reach.spent_nil] using hn
  · intro p hphi
    apply OrdSet.ext
    intro t
    simp only [OrdSet.mem_ofList, List.mem_flatMap, OrdSet.mem_toList, mem_possible_iff,
      Body.source_phi hphi]
    constructor
    · rintro ⟨w, ⟨u, hu, hw⟩, ht⟩
      exact ⟨u, hu, w, hw, ht⟩
    · rintro ⟨u, hu, w, hw, ht⟩
      exact ⟨w, ⟨u, hu, hw⟩, ht⟩
  · intro hphi
    have hsingle : possible b oracle v = OrdSet.ofList [oracle v] := by
      apply OrdSet.ext
      intro t
      simp [mem_possible_iff, Body.source_self hphi, eq_comm]
    rw [hsingle]
    rfl
  · intro hdrafted huses
    have hsource := hdrafted.exists_source huses v
    refine ⟨isEmpty_possible oracle hsource, ?_⟩
    intro h
    simp only [resolve, isEmpty_possible (declared h b) hsource]
    rfl

/-! ### A merge in a knot, and a merge of a till -/

namespace Knot

open Draft.Till

/-- The first merge leads to itself, to a merge that leads back to it, to a position where there
    is no merge, and to a value without a definition. -/
def body : Body :=
  { method := setUp
    isStatic := true
    params := []
    instructions := []
    phis := [⟨1, [1, 2, 3, 9]⟩, ⟨2, [1]⟩]
    symbols := ⟨[(1, .phi 0), (2, .phi 1), (3, .phi 7)], 3, by decide⟩ }

/-- The till for the third value, the box for the others. -/
def typing : ValueNumber → StaticType
  | 3 => .point till
  | _ => .cone box

/-- The types of the merges of the knot come from outside the knot.  The merge of the till has a
    parameter, an allocation and a null constant as its sources. -/
theorem possible_eq_sources_knot :
    (.point till ∈ possible body typing 2 ∧ .cone box ∈ possible body typing 2 ∧
      (possible body typing 3).toList = [.point till]) ∧
    draft.body.Drafted ∧ (∀ p ∈ draft.body.phis, p.uses ≠ []) ∧
    (∀ h, resolve h draft.body 6 = .ok (possible draft.body (declared h draft.body) 6) ∧
      .top ∈ possible draft.body (declared h draft.body) 6) := by
  have hdrafted : draft.body.Drafted := ⟨tally, false, draft, written, finished⟩
  have huses : ∀ p ∈ draft.body.phis, p.uses ≠ [] := by decide +kernel
  have hback : body.Merges 2 1 := ⟨⟨2, [1]⟩, rfl, by simp⟩
  have hout : ∀ w ∈ [1, 2, 3, 9], ReflTransGen body.Merges 2 w := by
    intro w hw
    exact (ReflTransGen.single hback).tail ⟨⟨1, [1, 2, 3, 9]⟩, rfl, hw⟩
  obtain ⟨hknot, -, -, -, -⟩ := possible_eq_sources body typing 2
  obtain ⟨-, -, -, hsingle, -⟩ := possible_eq_sources body typing 3
  refine ⟨⟨?_, ?_, hsingle rfl⟩, hdrafted, huses, ?_⟩
  · exact (hknot _).mpr ⟨3, hout 3 (by simp), rfl, rfl⟩
  · exact (hknot _).mpr ⟨9, hout 9 (by simp), rfl, rfl⟩
  · intro h
    obtain ⟨hsources, -, -, -, hresolved⟩ :=
      possible_eq_sources draft.body (declared h draft.body) 6
    refine ⟨(hresolved hdrafted huses).2 h, (hsources _).mpr ⟨5, ?_, rfl, rfl⟩⟩
    exact ReflTransGen.single ⟨⟨6, [2, 4, 5]⟩, rfl, by simp⟩

end Knot

end StaticType
end StreamVerdict
