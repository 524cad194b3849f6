/-
  Which scopes give a hierarchy.

  A scope is refused for one of three reasons: two of its classes have one name, a class lists
  a supertype that is neither there nor left out, or following superclasses comes back to a
  class.  An earlier reason hides the later ones.  What is left out of a scope plays no part,
  except that it may be listed.  The reasons do not mention the order of the classes, and so
  the kind of the outcome does not depend on it.
-/
import Mathlib.Data.List.Duplicate
import StreamVerdict.Proofs.Hierarchy.Selection

namespace StreamVerdict

open Relation

/-! ### Reasons to refuse a scope -/

namespace Scope

/-- A class that is not left out has this name. -/
def Names (s : Scope) (t : TypeName) : Prop := ∃ c ∈ s.included, c.name = t

/-- A class `t` that is not left out has the superclass `u`. -/
def SuperclassLink (s : Scope) (t u : TypeName) : Prop :=
  ∃ c ∈ s.included, c.name = t ∧ c.superClass = some u

/-- A class `t` that is not left out has the superclass `u` or lists the interface `u`. -/
def SupertypeLink (s : Scope) (t u : TypeName) : Prop :=
  ∃ c ∈ s.included, c.name = t ∧ (c.superClass = some u ∨ u ∈ c.interfaces)

/-- Two classes that are not left out have one name; their loaders may differ. -/
def Repeats (s : Scope) : Prop := ∃ t, List.Duplicate t (s.included.map ClassInfo.name)

/-- A class has a supertype that no class has as its name and that is not left out either. -/
def Lacks (s : Scope) : Prop := ∃ t u, s.SupertypeLink t u ∧ ¬ s.Names u ∧ s.isExcluded u = false

/-- Following superclasses from some class meets a class again. -/
def Circles (s : Scope) : Prop :=
  ∃ c ∈ s.included, ∃ t, ReflTransGen s.SuperclassLink c.name t ∧ TransGen s.SuperclassLink t t

/-- The hierarchy that the scope gives, if it gives one. -/
def candidate (s : Scope) (hnames : (s.included.map ClassInfo.name).Nodup) : Hierarchy :=
  Hierarchy.ofClasses s.project s.included hnames

theorem not_repeats_iff {s : Scope} :
    ¬ s.Repeats ↔ (s.included.map ClassInfo.name).Nodup := by
  rw [Repeats, List.exists_duplicate_iff_not_nodup, not_not]

/-! ### The order of the classes -/

section

variable {s s' : Scope}

theorem included_perm (hexclusions : s'.exclusions = s.exclusions)
    (hclasses : s'.classes.Perm s.classes) : s'.included.Perm s.included := by
  have hsame : s'.isExcluded = s.isExcluded := by
    funext t
    rw [isExcluded, isExcluded, hexclusions]
  rw [included, included, hsame]
  exact hclasses.filter _

variable (h : s'.included.Perm s.included)

include h

theorem names_congr : s'.Names = s.Names := by
  funext t
  simp only [Names, h.mem_iff]

theorem superclassLink_congr : s'.SuperclassLink = s.SuperclassLink := by
  funext t u
  simp only [SuperclassLink, h.mem_iff]

theorem supertypeLink_congr : s'.SupertypeLink = s.SupertypeLink := by
  funext t u
  simp only [SupertypeLink, h.mem_iff]

theorem repeats_congr : s'.Repeats ↔ s.Repeats := by
  rw [← not_iff_not, not_repeats_iff, not_repeats_iff]
  exact (h.map ClassInfo.name).nodup_iff

theorem lacks_congr (hexclusions : s'.exclusions = s.exclusions) : s'.Lacks ↔ s.Lacks := by
  simp only [Lacks, names_congr h, supertypeLink_congr h, isExcluded, hexclusions]

theorem circles_congr : s'.Circles ↔ s.Circles := by
  simp only [Circles, superclassLink_congr h, h.mem_iff]

end

end Scope

/-! ### What the checks find -/

namespace Hierarchy

variable {h : Hierarchy} {scope : Scope} {c : ClassInfo} {t u : TypeName}

theorem contains_iff : h.contains t ↔ ∃ c ∈ h.classes, c.name = t := by
  rw [contains, class?, List.find?_isSome]
  simp only [decide_eq_true_eq]

/-- A class is found by its name, and only so. -/
theorem class?_eq_some_iff : h.class? t = some c ↔ c ∈ h.classes ∧ c.name = t := by
  constructor
  · intro hc
    exact ⟨List.mem_of_find?_eq_some hc, name_of_class? hc⟩
  · rintro ⟨hc, rfl⟩
    exact class?_of_mem hc

theorem firstRepeated?_of_nodup {met ts : List TypeName} (hnodup : ts.Nodup)
    (hfresh : ∀ t ∈ ts, t ∉ met) : firstRepeated? met ts = none := by
  induction ts generalizing met with
  | nil => rfl
  | cons t ts ih =>
      rw [List.nodup_cons] at hnodup
      rw [firstRepeated?, if_neg (hfresh t List.mem_cons_self)]
      refine ih hnodup.2 ?_
      intro u hu hmem
      rcases List.mem_cons.mp hmem with rfl | hmet
      · exact hnodup.1 hu
      · exact hfresh u (List.mem_cons_of_mem t hu) hmet

theorem firstRepeated?_eq_none_iff {ts : List TypeName} :
    firstRepeated? [] ts = none ↔ ts.Nodup := by
  constructor
  · exact fun hnone => (nodup_of_firstRepeated? hnone).1
  · exact fun hnodup => firstRepeated?_of_nodup hnodup fun _ _ => List.not_mem_nil

section Candidate

variable (hnames : (scope.included.map ClassInfo.name).Nodup)

theorem firstMissing?_eq_none_iff :
    (scope.candidate hnames).firstMissing? scope = none ↔ ¬ scope.Lacks := by
  have hcontains : ∀ u, (scope.candidate hnames).contains u = true ↔ scope.Names u :=
    fun _ => contains_iff
  rw [firstMissing?, List.findSome?_eq_none_iff]
  constructor
  · rintro hnone ⟨_, u, ⟨c, hc, -, hu⟩, hunnamed, hexcluded⟩
    have hlisted : u ∈ c.supertypes := by
      rw [ClassInfo.supertypes, List.mem_append, Option.mem_toList]
      exact hu
    have hfine := List.find?_eq_none.mp (Option.map_eq_none_iff.mp (hnone c hc)) u hlisted
    rw [← hcontains] at hunnamed
    simp [hunnamed, hexcluded] at hfine
  · intro hlacks c hc
    rw [Option.map_eq_none_iff, List.find?_eq_none]
    intro u hu hmissing
    rw [ClassInfo.supertypes, List.mem_append, Option.mem_toList] at hu
    rw [Bool.and_eq_true, Bool.not_eq_true', Bool.not_eq_true'] at hmissing
    refine hlacks ⟨c.name, u, ⟨c, hc, rfl, hu⟩, ?_, hmissing.2⟩
    rw [← hcontains, hmissing.1]
    exact Bool.false_ne_true

theorem extends_candidate : (scope.candidate hnames).Extends = scope.SuperclassLink := by
  funext t u
  simp only [Extends, Scope.SuperclassLink, class?_eq_some_iff, and_assoc]
  rfl

theorem inherits_candidate : (scope.candidate hnames).Inherits = scope.SupertypeLink := by
  funext t u
  rw [eq_iff_iff, inherits_iff]
  simp only [Scope.SupertypeLink, class?_eq_some_iff, and_assoc, ClassInfo.supertypes,
    List.mem_append, Option.mem_toList]
  rfl

end Candidate

/-! ### Walks that come back -/

/-- Where no chain of superclasses comes back, the walk along superclasses meets nothing twice. -/
theorem Accepted.nodup_superclasses (hacc : h.Accepted) (t : TypeName) :
    (h.superclasses t).Nodup := by
  -- The rest of a walk is the walk of the superclass, which is shorter.
  generalize hlength : (h.superclasses t).length = n
  induction n generalizing t with
  | zero =>
      rw [List.length_eq_zero_iff.mp hlength]
      exact List.nodup_nil
  | succ n ih =>
      cases hsuper : (h.class? t).bind ClassInfo.superClass with
      | none =>
          rw [superclasses_of_no_superClass hsuper]
          exact List.nodup_singleton t
      | some s =>
          obtain ⟨c, hc, hs⟩ := Option.bind_eq_some_iff.mp hsuper
          rw [hacc.superclasses_of_superClass hc hs] at hlength ⊢
          exact List.nodup_cons.mpr
            ⟨hacc.notMem_superclasses hc hs, ih s (Nat.succ.inj hlength)⟩

/-- What a walk along single links meets again stands on a circle. -/
theorem transGen_of_firstRepeated? {links : List (TypeName × List TypeName)}
    (hsingle : ∀ k, (Reach.follow links k).length ≤ 1) {met queue : List TypeName}
    (hqueue : queue.length ≤ 1) (hmet : ∀ m ∈ met, ∀ k ∈ queue, TransGen (Reach.Leads links) m k)
    (ht : firstRepeated? met (Reach.visit (Reach.spent links met) queue) = some t) :
    TransGen (Reach.Leads links) t t := by
  -- The walk goes on with the only node that the last one leads to.
  generalize hlength : (Reach.visit (Reach.spent links met) queue).length = n
  induction n generalizing met queue with
  | zero =>
      rw [List.length_eq_zero_iff.mp hlength] at ht
      cases ht
  | succ n ih =>
      cases queue with
      | nil =>
          rw [Reach.visit_nil] at ht
          cases ht
      | cons k rest =>
          obtain rfl : rest = [] := by
            simpa using hqueue
          rw [Reach.visit_cons, Reach.without_spent, Reach.follow_spent, List.nil_append] at ht hlength
          rw [firstRepeated?] at ht
          by_cases hk : k ∈ met
          · rw [if_pos hk, Option.some.injEq] at ht
            exact ht ▸ hmet k hk k List.mem_cons_self
          · rw [if_neg hk, if_neg hk] at ht
            rw [if_neg hk, List.length_cons, Nat.add_right_cancel_iff] at hlength
            refine ih (hsingle k) ?_ ht hlength
            intro m hm s hs
            rcases List.mem_cons.mp hm with rfl | hold
            · exact .single hs
            · exact (hmet m hold k List.mem_cons_self).tail hs

theorem transGen_of_superclasses (ht : firstRepeated? [] (h.superclasses u) = some t) :
    TransGen h.Extends t t := by
  have hsingle : ∀ k, (Reach.follow (h.links fun c => c.superClass.toList) k).length ≤ 1 := by
    intro k
    rw [Reach.follow, next?_links]
    cases h.class? k with
    | none => exact Nat.zero_le 1
    | some c =>
        show c.superClass.toList.length ≤ 1
        cases c.superClass with
        | none => exact Nat.zero_le 1
        | some s => exact Nat.le_refl 1
  rw [superclasses, ← Reach.spent_nil (h.links fun c => c.superClass.toList)] at ht
  rw [← leads_superClass]
  refine transGen_of_firstRepeated? hsingle ?_ ?_ ht
  · exact Nat.le_refl 1
  · exact fun m hm => absurd hm List.not_mem_nil

/-- A chain of superclasses comes back to its start just if following superclasses from some
    class meets a class again. -/
theorem circles_iff : scope.Circles ↔ ∃ t, TransGen scope.SuperclassLink t t := by
  constructor
  · rintro ⟨-, -, t, -, hcircle⟩
    exact ⟨t, hcircle⟩
  · rintro ⟨t, hcircle⟩
    -- A class on the circle is one from which to begin.
    obtain ⟨u, ⟨c, hc, rfl, -⟩, -⟩ := TransGen.head'_iff.mp hcircle
    exact ⟨c, hc, c.name, .refl, hcircle⟩

theorem firstCyclic?_eq_none_iff (hnames : (scope.included.map ClassInfo.name).Nodup) :
    (scope.candidate hnames).firstCyclic? = none ↔ ¬ scope.Circles := by
  rw [circles_iff, not_exists, ← extends_candidate hnames]
  constructor
  · intro hnone t
    rw [← leads_superClass]
    exact Reach.not_transGen_of_nodup (nodup_superclasses hnone t)
  · intro hacyclic
    have hacc : (scope.candidate hnames).Accepted := ⟨hacyclic⟩
    rw [firstCyclic?, List.findSome?_eq_none_iff]
    intro c _
    exact firstRepeated?_eq_none_iff.mpr (hacc.nodup_superclasses c.name)

/-! ### The outcome -/

/-- There are four outcomes, and each comes with what the checks up to it have found. -/
theorem build_cases (scope : Scope) :
    (∃ t, build scope = .error (.duplicateClass t) ∧ scope.Repeats) ∨
    (∃ t u, build scope = .error (.missingSupertype t u) ∧ ¬ scope.Repeats ∧ scope.Lacks) ∨
    (∃ t, build scope = .error (.cyclicInheritance t) ∧
      ¬ scope.Repeats ∧ ¬ scope.Lacks ∧ TransGen scope.SuperclassLink t t) ∨
    (∃ hnames, build scope = .ok (scope.candidate hnames) ∧
      ¬ scope.Repeats ∧ ¬ scope.Lacks ∧ ¬ scope.Circles) := by
  rw [build]
  split
  · next t hrepeated =>
    have hrepeats : scope.Repeats := by
      by_contra hnone
      rw [Scope.not_repeats_iff, ← firstRepeated?_eq_none_iff] at hnone
      cases hnone.symm.trans hrepeated
    exact Or.inl ⟨t, rfl, hrepeats⟩
  · next hrepeated =>
    have hnames : (scope.included.map ClassInfo.name).Nodup :=
      firstRepeated?_eq_none_iff.mp hrepeated
    have hnot : ¬ scope.Repeats := Scope.not_repeats_iff.mpr hnames
    dsimp only
    split
    · next t u hmissing =>
      have hlacks : scope.Lacks := by
        by_contra hnone
        cases ((firstMissing?_eq_none_iff hnames).mpr hnone).symm.trans hmissing
      exact Or.inr (Or.inl ⟨t, u, rfl, hnot, hlacks⟩)
    · next hmissing =>
      have hlacks : ¬ scope.Lacks := (firstMissing?_eq_none_iff hnames).mp hmissing
      split
      · next t hcyclic =>
        obtain ⟨c, -, hwalk⟩ := List.exists_of_findSome?_eq_some hcyclic
        have hcircle := transGen_of_superclasses hwalk
        exact Or.inr (Or.inr (Or.inl ⟨t, rfl, hnot, hlacks, extends_candidate hnames ▸ hcircle⟩))
      · next hcyclic =>
        have hcircles : ¬ scope.Circles := (firstCyclic?_eq_none_iff hnames).mp hcyclic
        exact Or.inr (Or.inr (Or.inr ⟨hnames, rfl, hnot, hlacks, hcircles⟩))

/-- What kind of error an outcome is, if it is one. -/
def errorLabel? : Except HierarchyError Hierarchy → Option String
  | .ok _ => none
  | .error e => some e.label

open Classical in
/-- The kind of the outcome is the first reason that there is. -/
theorem errorLabel?_build (scope : Scope) :
    errorLabel? (build scope) =
      if scope.Repeats then some "DuplicateClass"
      else if scope.Lacks then some "MissingSupertype"
      else if scope.Circles then some "CyclicInheritance"
      else none := by
  rcases build_cases scope with ⟨t, hb, hrepeats⟩ | ⟨t, u, hb, hnot, hlacks⟩ |
    ⟨t, hb, hnot, hlacks, hcircle⟩ | ⟨hnames, hb, hnot, hlacks, hcircles⟩
  · rw [hb, if_pos hrepeats]
    rfl
  · rw [hb, if_neg hnot, if_pos hlacks]
    rfl
  · rw [hb, if_neg hnot, if_neg hlacks, if_pos (circles_iff.mpr ⟨t, hcircle⟩)]
    rfl
  · rw [hb, if_neg hnot, if_neg hlacks, if_neg hcircles]
    rfl

theorem errorLabel?_build_congr {scope' : Scope}
    (hexclusions : scope'.exclusions = scope.exclusions)
    (hclasses : scope'.classes.Perm scope.classes) :
    errorLabel? (build scope') = errorLabel? (build scope) := by
  classical
  have hincluded := Scope.included_perm hexclusions hclasses
  have hcircles := Scope.circles_congr hincluded
  have hlacks := Scope.lacks_congr hincluded hexclusions
  rw [errorLabel?_build, errorLabel?_build]
  exact if_congr (Scope.repeats_congr hincluded) rfl
    (if_congr hlacks rfl (if_congr hcircles rfl rfl))

/-- A scope is refused as repeating a class exactly if it repeats one; otherwise as lacking a
    supertype exactly if it lacks one; otherwise as cyclic exactly if superclasses come back, and
    then the class that is reported stands on a circle.  Otherwise it gives a hierarchy, which
    has just the names of the classes that are not left out.  The kind of the outcome is the
    same for the classes in any other order. -/
theorem build_outcome_iff (scope : Scope) :
    ((∃ t, build scope = .error (.duplicateClass t)) ↔ scope.Repeats) ∧
    ((∃ t u, build scope = .error (.missingSupertype t u)) ↔ ¬ scope.Repeats ∧ scope.Lacks) ∧
    ((∃ t, build scope = .error (.cyclicInheritance t)) ↔
      ¬ scope.Repeats ∧ ¬ scope.Lacks ∧ scope.Circles) ∧
    (∀ t, build scope = .error (.cyclicInheritance t) → TransGen scope.SuperclassLink t t) ∧
    ((∃ h, build scope = .ok h) ↔ ¬ scope.Repeats ∧ ¬ scope.Lacks ∧ ¬ scope.Circles) ∧
    (∀ h, build scope = .ok h → ∀ t, h.contains t ↔ scope.Names t) ∧
    ∀ classes, classes.Perm scope.classes →
      errorLabel? (build { scope with classes }) = errorLabel? (build scope) := by
  have hnames : ∀ h, build scope = .ok h → ∀ t, h.contains t ↔ scope.Names t := by
    intro h hb t
    obtain ⟨⟨_, rfl⟩, -⟩ := build_eq_ok hb
    exact contains_iff
  have horder : ∀ classes, classes.Perm scope.classes →
      errorLabel? (build { scope with classes }) = errorLabel? (build scope) :=
    fun _ hclasses => errorLabel?_build_congr rfl hclasses
  rcases build_cases scope with ⟨t, hb, hrepeats⟩ | ⟨t, u, hb, hnot, hlacks⟩ |
    ⟨t, hb, hnot, hlacks, hcircle⟩ | ⟨_, hb, hnot, hlacks, hcircles⟩
  · refine ⟨?_, ?_, ?_, ?_, ?_, hnames, horder⟩ <;> simp [hb, hrepeats]
  · refine ⟨?_, ?_, ?_, ?_, ?_, hnames, horder⟩ <;> simp [hb, hnot, hlacks]
  · have hcircles : scope.Circles := circles_iff.mpr ⟨t, hcircle⟩
    refine ⟨?_, ?_, ?_, ?_, ?_, hnames, horder⟩ <;> simp [hb, hnot, hlacks, hcircles, hcircle]
  · refine ⟨?_, ?_, ?_, ?_, ?_, hnames, horder⟩ <;> simp [hb, hnot, hlacks, hcircles]

/-! ### A barn that is left out, and a stall that leads into a circle -/

namespace Market

/-- A concrete class of the market with the given superclass. -/
def under (name super : String) : ClassInfo :=
  { ClassInfo.concrete .application name with superClass := some (TypeName.ofBinary super) }

/-- The hall has a superclass that is there twice, and is left out. -/
def yard : Scope :=
  { scopeOf [under "market.old.Barn" "market.old.Barn", under "market.Hall" "market.old.Barn",
      under "market.Stall" "market.Hall", under "market.old.Barn" "market.Stall"] with
    exclusions := ["market.old."] }

/-- The stall is not on the circle of the hall and the shop. -/
def carousel : Scope :=
  scopeOf [under "market.Stall" "market.Hall", under "market.Hall" "market.Shop",
    under "market.Shop" "market.Hall"]

theorem names_nodup_carousel : (carousel.included.map ClassInfo.name).Nodup := by decide +kernel

theorem circles_carousel : carousel.Circles := by
  have hhall : carousel.SuperclassLink (TypeName.ofBinary "market.Hall")
      (TypeName.ofBinary "market.Shop") := by
    refine ⟨under "market.Hall" "market.Shop", ?_, rfl, rfl⟩
    decide +kernel
  have hshop : carousel.SuperclassLink (TypeName.ofBinary "market.Shop")
      (TypeName.ofBinary "market.Hall") := by
    refine ⟨under "market.Shop" "market.Hall", ?_, rfl, rfl⟩
    decide +kernel
  exact circles_iff.mpr ⟨_, (TransGen.single hhall).tail hshop⟩

/-- The yard is accepted in either order of its classes and has no barn.  The carousel is
    refused in either order, and not for the stall. -/
theorem build_outcome_iff_yard :
    (∃ h, build yard = .ok h ∧ (∀ t, h.contains t ↔ yard.Names t) ∧
      h.contains (TypeName.ofBinary "market.Hall") ∧
      h.contains (TypeName.ofBinary "market.old.Barn") = false) ∧
    errorLabel? (build { yard with classes := yard.classes.reverse }) = none ∧
    carousel.Circles ∧
    (∃ t, build carousel = .error (.cyclicInheritance t) ∧ TransGen carousel.SuperclassLink t t) ∧
    errorLabel? (build { carousel with classes := carousel.classes.reverse }) =
      some "CyclicInheritance" := by
  obtain ⟨h, hb, hhall, hbarn⟩ : ∃ h, build yard = .ok h ∧
      h.contains (TypeName.ofBinary "market.Hall") ∧
      h.contains (TypeName.ofBinary "market.old.Barn") = false :=
    exists_ok_of_any (by decide +kernel)
  obtain ⟨-, -, -, -, -, hnames, horder⟩ := build_outcome_iff yard
  obtain ⟨-, -, hcyclic, hreported, -, -, hturned⟩ := build_outcome_iff carousel
  have hnot : ¬ carousel.Repeats := Scope.not_repeats_iff.mpr names_nodup_carousel
  have hlacks : ¬ carousel.Lacks :=
    (firstMissing?_eq_none_iff names_nodup_carousel).mp (by decide +kernel)
  obtain ⟨t, ht⟩ := hcyclic.mpr ⟨hnot, hlacks, circles_carousel⟩
  refine ⟨⟨h, hb, hnames h hb, hhall, hbarn⟩, ?_, circles_carousel, ⟨t, ht, hreported t ht⟩, ?_⟩
  · rw [horder _ (List.reverse_perm _), hb]
    rfl
  · rw [hturned _ (List.reverse_perm _), ht]
    rfl

end Market

end Hierarchy
end StreamVerdict
