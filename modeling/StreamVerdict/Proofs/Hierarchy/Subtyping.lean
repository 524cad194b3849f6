/-
  Subtyping in a hierarchy that was built.

  A type is a subtype of whatever chains of superclasses and interfaces lead to.  The chains of
  superclasses alone are checked when a hierarchy is built: none of them comes back to a class.
  Chains that also lead through interfaces are not checked, so that two types can be subtypes of
  each other; this happens exactly where a class is a supertype of an interface that it lists.
-/
import Mathlib.Data.List.Nodup
import StreamVerdict.Hierarchy.Basic
import StreamVerdict.Proofs.Data.Fold
import StreamVerdict.Proofs.Data.Reach

namespace StreamVerdict
namespace Hierarchy

open Relation

variable {h : Hierarchy} {scope : Scope} {c : ClassInfo} {a b t u : TypeName}

/-! ### Classes by name -/

theorem name_of_class? (hc : h.class? t = some c) : c.name = t := by
  simpa using List.find?_some hc

/-- As names are distinct, every class is found. -/
theorem class?_of_mem (hc : c ∈ h.classes) : h.class? c.name = some c := by
  rw [class?]
  cases hfind : h.classes.find? fun d => d.name = c.name with
  | none =>
      have hne := List.find?_eq_none.mp hfind c hc
      simp at hne
  | some d =>
      have hname : d.name = c.name := by simpa using List.find?_some hfind
      have hd : d ∈ h.classes := List.mem_of_find?_eq_some hfind
      rw [List.inj_on_of_nodup_map h.names_nodup hd hc hname]

/-! ### Links -/

/-- `u` is the superclass of the class `t`. -/
def Extends (h : Hierarchy) (t u : TypeName) : Prop :=
  ∃ c, h.class? t = some c ∧ c.superClass = some u

/-- `u` is an interface that the class `t` lists. -/
def Implements (h : Hierarchy) (t u : TypeName) : Prop :=
  ∃ c, h.class? t = some c ∧ u ∈ c.interfaces

/-- `u` is a direct supertype of the class `t`. -/
def Inherits (h : Hierarchy) (t u : TypeName) : Prop := h.Extends t u ∨ h.Implements t u

theorem inherits_iff : h.Inherits t u ↔ ∃ c, h.class? t = some c ∧ u ∈ c.supertypes := by
  constructor
  · rintro (⟨c, hc, hu⟩ | ⟨c, hc, hu⟩)
    · exact ⟨c, hc, List.mem_append_left _ (Option.mem_toList.mpr hu)⟩
    · exact ⟨c, hc, List.mem_append_right _ hu⟩
  · rintro ⟨c, hc, hu⟩
    rcases List.mem_append.mp hu with hsuper | hinterface
    · exact Or.inl ⟨c, hc, Option.mem_toList.mp hsuper⟩
    · exact Or.inr ⟨c, hc, hinterface⟩

theorem next?_links (h : Hierarchy) (next : ClassInfo → List TypeName) (t : TypeName) :
    Reach.next? (h.links next) t = (h.class? t).map next := by
  rw [Reach.next?, links, List.find?_map, Option.map_map]
  rfl

theorem leads_links {next : ClassInfo → List TypeName} :
    Reach.Leads (h.links next) t u ↔ ∃ c, h.class? t = some c ∧ u ∈ next c := by
  rw [Reach.Leads, Reach.follow, next?_links]
  cases h.class? t <;> simp

theorem leads_supertypes : Reach.Leads (h.links ClassInfo.supertypes) = h.Inherits := by
  funext t u
  rw [eq_iff_iff, leads_links, inherits_iff]

theorem leads_superClass : Reach.Leads (h.links fun c => c.superClass.toList) = h.Extends := by
  funext t u
  rw [eq_iff_iff, leads_links]
  simp only [Option.mem_toList]
  rfl

/-- Subtypes are connected by a chain of superclasses and interfaces. -/
theorem isSubtype_iff : h.isSubtype a b ↔ ReflTransGen h.Inherits a b := by
  rw [isSubtype, decide_eq_true_iff, upward, Reach.mem_visit_iff]
  simp only [List.mem_singleton, exists_eq_left, Reach.Reaches, leads_supertypes]

/-! ### What is checked when a hierarchy is built -/

/-- No chain of superclasses comes back to its start. -/
structure Accepted (h : Hierarchy) : Prop where
  acyclic : ∀ t, ¬ TransGen h.Extends t t

theorem build_eq_ok (hb : build scope = .ok h) :
    (∃ hnames, h = ofClasses scope.project scope.included hnames) ∧
      h.firstMissing? scope = none ∧ h.firstCyclic? = none := by
  rw [build] at hb
  split at hb
  · cases hb
  · next hrepeated =>
    dsimp only at hb
    split at hb
    · cases hb
    · next hmissing =>
      split at hb
      · cases hb
      · next hcyclic =>
        cases hb
        exact ⟨⟨_, rfl⟩, hmissing, hcyclic⟩

/-- A walk that finds no superclass ends where it begins. -/
theorem superclasses_of_no_superClass
    (hnone : (h.class? t).bind ClassInfo.superClass = none) : h.superclasses t = [t] := by
  have hfollow : Reach.follow (h.links fun c => c.superClass.toList) t = [] := by
    rw [Reach.follow, next?_links]
    cases hc : h.class? t with
    | none => rfl
    | some c =>
        rw [hc, Option.bind_some] at hnone
        show c.superClass.toList = []
        rw [hnone]
        rfl
  rw [superclasses, Reach.visit_cons, hfollow, List.nil_append, Reach.visit_nil]

theorem nodup_superclasses (hnone : h.firstCyclic? = none) (t : TypeName) :
    (h.superclasses t).Nodup := by
  cases hc : h.class? t with
  | none =>
      -- The check goes over the classes; a name without a class has nowhere to walk to.
      have hwalk : h.superclasses t = [t] := superclasses_of_no_superClass (by rw [hc]; rfl)
      rw [hwalk]
      exact List.nodup_singleton t
  | some c =>
      have hwalk := List.findSome?_eq_none_iff.mp hnone c (List.mem_of_find?_eq_some hc)
      rw [name_of_class? hc] at hwalk
      exact (nodup_of_firstRepeated? hwalk).1

theorem accepted_of_build (hb : build scope = .ok h) : h.Accepted := by
  obtain ⟨-, -, hcyclic⟩ := build_eq_ok hb
  refine ⟨?_⟩
  intro t
  rw [← leads_superClass]
  exact Reach.not_transGen_of_nodup (nodup_superclasses hcyclic t)

/-! ### Antisymmetry -/

/-- No class is a supertype of another one that it lists as an interface. -/
def InterfacesAscend (h : Hierarchy) : Prop :=
  ∀ c ∈ h.classes, ∀ i ∈ c.interfaces, i ≠ c.name → ¬ h.isSubtype i c.name

instance (h : Hierarchy) : Decidable h.InterfacesAscend :=
  inferInstanceAs (Decidable (∀ c ∈ h.classes, ∀ i ∈ c.interfaces, i ≠ c.name →
    ¬ h.isSubtype i c.name))

/-- If interfaces ascend, then types that are subtypes of each other are connected by
    superclasses alone. -/
theorem InterfacesAscend.extends_of_isSubtype (hascend : h.InterfacesAscend)
    (hab : ReflTransGen h.Inherits a b) (hba : ReflTransGen h.Inherits b a) :
    ReflTransGen h.Extends a b := by
  -- Every type on the way from `a` to `b` leads back to `a`.
  induction hab with
  | refl => exact .refl
  | @tail y b hay hstep ih =>
      have hchain := ih ((ReflTransGen.single hstep).trans hba)
      rcases hstep with hextends | ⟨c, hc, hb⟩
      · exact hchain.tail hextends
      · -- A class that lists itself adds nothing to the chain; any other interface would ascend.
        by_cases hself : b = y
        · rw [hself]
          exact hchain
        · rw [← name_of_class? hc] at hself hay
          have hback : h.isSubtype b c.name := isSubtype_iff.mpr (hba.trans hay)
          exact absurd hback (hascend c (List.mem_of_find?_eq_some hc) b hb hself)

theorem Accepted.antisymm_of_interfacesAscend (hacc : h.Accepted) (hascend : h.InterfacesAscend)
    (hab : h.isSubtype a b) (hba : h.isSubtype b a) : a = b := by
  rw [isSubtype_iff] at hab hba
  have hup := hascend.extends_of_isSubtype hab hba
  have hdown := hascend.extends_of_isSubtype hba hab
  rcases reflTransGen_iff_eq_or_transGen.mp hup with heq | hproper
  · exact heq.symm
  · exact absurd (hproper.trans_left hdown) (hacc.acyclic a)

/-- In a hierarchy that was built no chain of superclasses comes back to its start.  Subtyping is
    antisymmetric exactly if no class is a supertype of another one that it lists as an
    interface. -/
theorem build_antisymm_iff (scope : Scope) (h : Hierarchy) (hb : build scope = .ok h) :
    (∀ t, ¬ TransGen h.Extends t t) ∧
    ((∀ a b, h.isSubtype a b → h.isSubtype b a → a = b) ↔ h.InterfacesAscend) := by
  have hacc := accepted_of_build hb
  refine ⟨hacc.acyclic, ⟨?_, ?_⟩⟩
  · intro hantisymm c hc i hi hne hback
    have hlink : h.Inherits c.name i := Or.inr ⟨c, class?_of_mem hc, hi⟩
    exact hne (hantisymm i c.name hback (isSubtype_iff.mpr (.single hlink)))
  · intro hascend a b hab hba
    exact hacc.antisymm_of_interfacesAscend hascend hab hba

/-! ### Interfaces that lead up, and interfaces that lead back -/

namespace Market

/-- An interface of the market that lists others. -/
def trade (name : String) (listed : List String) : ClassInfo :=
  { ClassInfo.interface .application name with interfaces := listed.map TypeName.ofBinary }

def scopeOf (classes : List ClassInfo) : Scope :=
  ⟨⟨"market"⟩, ClassInfo.root .primordial :: classes, []⟩

/-- A dealer is a buyer and a seller, and both are traders. -/
def ladder : Scope :=
  scopeOf [trade "market.Trader" [], trade "market.Buyer" ["market.Trader"],
    trade "market.Seller" ["market.Trader"],
    trade "market.Dealer" ["market.Buyer", "market.Seller"]]

/-- Where interfaces lead up only, subtyping is antisymmetric. -/
theorem build_antisymm_iff_ladder : ∃ h, build ladder = .ok h ∧ h.InterfacesAscend ∧
    ∀ a b, h.isSubtype a b → h.isSubtype b a → a = b := by
  obtain ⟨h, hb, hascend⟩ : ∃ h, build ladder = .ok h ∧ h.InterfacesAscend :=
    exists_ok_of_any (by decide +kernel)
  exact ⟨h, hb, hascend, (build_antisymm_iff ladder h hb).2.mpr hascend⟩

/-- Buyers are sellers and sellers are buyers. -/
def circle : Scope :=
  scopeOf [trade "market.Buyer" ["market.Seller"], trade "market.Seller" ["market.Buyer"]]

/-- The circle is accepted, and two types are subtypes of each other. -/
theorem build_not_antisymm : ∃ h, build circle = .ok h ∧
    ¬ ∀ a b, h.isSubtype a b → h.isSubtype b a → a = b := by
  obtain ⟨h, hb, hbuyer, hseller⟩ : ∃ h, build circle = .ok h ∧
      h.isSubtype (TypeName.ofBinary "market.Buyer") (TypeName.ofBinary "market.Seller") ∧
      h.isSubtype (TypeName.ofBinary "market.Seller") (TypeName.ofBinary "market.Buyer") :=
    exists_ok_of_any (by decide +kernel)
  refine ⟨h, hb, ?_⟩
  intro hantisymm
  exact absurd (hantisymm _ _ hbuyer hseller) (by decide)

end Market

end Hierarchy
end StreamVerdict
