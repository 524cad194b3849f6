/-
  Walks up and walks down a hierarchy.

  Subtyping walks up, along the supertypes that the classes list themselves.  The concrete
  subtypes of a type are collected on a walk down, along an index of the classes that list a
  type.  The index leads from classes of the hierarchy to just the classes that list them, if
  also more than once; and a chain that leads up to a type of the hierarchy runs through classes
  of the hierarchy.  So both walks meet the same pairs of types, also where chains of interfaces
  come back; and as the walk down passes over what it has met, it collects each class once.
-/
import StreamVerdict.Proofs.Data.OrdSet
import StreamVerdict.Proofs.Data.Order
import StreamVerdict.Proofs.Hierarchy.Acceptance

namespace StreamVerdict
namespace Hierarchy

open Relation

variable {h : Hierarchy} {scope : Scope} {c : ClassInfo} {a b n t u : TypeName}

/-! ### Up -/

/-- A subtype is the type itself, or declared links lead up from it. -/
theorem isSubtype_candidate_iff (hnames : (scope.included.map ClassInfo.name).Nodup) :
    (scope.candidate hnames).isSubtype a b ↔ a = b ∨ TransGen scope.SupertypeLink a b := by
  rw [isSubtype_iff, inherits_candidate hnames, reflTransGen_iff_eq_or_transGen, eq_comm]

theorem isSubtype_refl (h : Hierarchy) (a : TypeName) : h.isSubtype a a :=
  isSubtype_iff.mpr .refl

theorem isSubtype_trans (hab : h.isSubtype a b) (hbt : h.isSubtype b t) : h.isSubtype a t :=
  isSubtype_iff.mpr ((isSubtype_iff.mp hab).trans (isSubtype_iff.mp hbt))

/-! ### The index -/

/-- A step down leads from a class of the hierarchy to a class that lists it. -/
def Descends (h : Hierarchy) (t u : TypeName) : Prop := h.contains t ∧ h.Inherits u t

theorem follow_cons (entry : TypeName × List TypeName) (index : List (TypeName × List TypeName))
    (t : TypeName) :
    Reach.follow (entry :: index) t = if entry.1 = t then entry.2 else Reach.follow index t := by
  by_cases ht : entry.1 = t
  · simp [Reach.follow, Reach.next?, ht]
  · simp [Reach.follow, Reach.next?, ht]

theorem follow_pushUnder (parent child : TypeName) (index : List (TypeName × List TypeName))
    (t : TypeName) :
    Reach.follow (pushUnder parent child index) t =
      Reach.follow index t ++ if parent = t then [child] else [] := by
  induction index with
  | nil =>
      rw [pushUnder, follow_cons]
      rfl
  | cons entry index ih =>
      obtain ⟨u, children⟩ := entry
      rw [pushUnder]
      by_cases hu : u = parent
      · rw [if_pos hu, follow_cons, follow_cons, hu]
        by_cases ht : parent = t
        · rw [if_pos ht, if_pos ht, if_pos ht]
        · rw [if_neg ht, if_neg ht, if_neg ht, List.append_nil]
      · rw [if_neg hu, follow_cons, follow_cons, ih]
        by_cases ht : u = t
        · have hparent : parent ≠ t := fun heq => hu (ht.trans heq.symm)
          rw [if_pos ht, if_pos ht, if_neg hparent, List.append_nil]
        · rw [if_neg ht, if_neg ht]

/-- Under a type stand the classes of all the links to it, in the order of the links. -/
theorem follow_foldl_pushUnder (links : List (TypeName × TypeName))
    (index : List (TypeName × List TypeName)) (t : TypeName) :
    Reach.follow (links.foldl (fun index l => pushUnder l.2 l.1 index) index) t =
      Reach.follow index t ++ (links.filter fun l => l.2 = t).map Prod.fst := by
  induction links generalizing index with
  | nil => simp
  | cons l links ih =>
      rw [List.foldl_cons, ih, follow_pushUnder, List.append_assoc]
      by_cases hl : l.2 = t
      · simp [hl]
      · simp [hl]

theorem mem_insertName {ts : List TypeName} : u ∈ insertName t ts ↔ u = t ∨ u ∈ ts := by
  induction ts with
  | nil => simp [insertName]
  | cons v ts ih =>
      rw [insertName]
      split
      · rw [List.mem_cons]
      · rw [List.mem_cons, ih, List.mem_cons, or_left_comm]

theorem mem_foldr_insertName {ts : List TypeName} : u ∈ ts.foldr insertName [] ↔ u ∈ ts := by
  induction ts with
  | nil => rfl
  | cons t ts ih => rw [List.foldr_cons, mem_insertName, ih, List.mem_cons]

theorem follow_map_sorted (index : List (TypeName × List TypeName)) (t : TypeName) :
    Reach.follow (index.map fun entry => (entry.1, entry.2.foldr insertName [])) t =
      (Reach.follow index t).foldr insertName [] := by
  induction index with
  | nil => rfl
  | cons entry index ih =>
      rw [List.map_cons, follow_cons, follow_cons, ih]
      split <;> rfl

theorem mem_inheritance_iff {classes : List ClassInfo} :
    (u, t) ∈ inheritance classes ↔
      (∃ d ∈ classes, d.name = t) ∧ ∃ c ∈ classes, c.name = u ∧ t ∈ c.supertypes := by
  simp only [inheritance, List.mem_flatMap, List.mem_map, List.mem_filter, List.any_eq_true,
    decide_eq_true_eq, Prod.mk.injEq]
  constructor
  · rintro ⟨c, hc, v, ⟨hv, d, hd, hname⟩, rfl, rfl⟩
    exact ⟨⟨d, hd, hname⟩, c, hc, rfl, hv⟩
  · rintro ⟨⟨d, hd, hname⟩, c, hc, rfl, ht⟩
    exact ⟨c, hc, t, ⟨ht, d, hd, hname⟩, rfl, rfl⟩

/-- The index leads down, and only down: it is the inverse of what the classes list. -/
theorem leads_subtypes (h : Hierarchy) : Reach.Leads h.subtypes = h.Descends := by
  funext t u
  have hlinks : u ∈ Reach.follow h.subtypes t ↔ (u, t) ∈ inheritance h.classes := by
    rw [h.subtypes_eq, indexOf, follow_map_sorted, mem_foldr_insertName, follow_foldl_pushUnder,
      List.mem_append, List.mem_map]
    constructor
    · rintro (hnone | ⟨l, hl, rfl⟩)
      · exact absurd hnone List.not_mem_nil
      · obtain ⟨hmem, ht⟩ := List.mem_filter.mp hl
        rwa [← of_decide_eq_true ht]
    · intro hmem
      exact Or.inr ⟨(u, t), List.mem_filter.mpr ⟨hmem, decide_eq_true rfl⟩, rfl⟩
  rw [eq_iff_iff, Reach.Leads, hlinks, mem_inheritance_iff, Descends, contains_iff, inherits_iff]
  simp only [class?_eq_some_iff, and_assoc]

/-! ### Down -/

theorem contains_of_inherits (hup : h.Inherits t u) : h.contains t := by
  obtain ⟨c, hc, -⟩ := inherits_iff.mp hup
  rw [contains, hc]
  rfl

/-- A chain that leads up to a type of the hierarchy is a chain down from it. -/
theorem descends_of_ascends (hn : h.contains n) (hup : ReflTransGen h.Inherits t n) :
    ReflTransGen h.Descends n t := by
  induction hup using ReflTransGen.head_induction_on with
  | refl => exact .refl
  | @head t u hstep hrest ih =>
      -- The type above is in the hierarchy: it is `n`, or it lists what comes next.
      have hu : h.contains u := by
        rcases ReflTransGen.cases_head hrest with rfl | ⟨v, hnext, -⟩
        · exact hn
        · exact contains_of_inherits hnext
      exact ih.tail ⟨hu, hstep⟩

/-- The walk down from a type of the hierarchy meets exactly its subtypes. -/
theorem mem_explore_subtypes_iff (hn : h.contains n) :
    t ∈ Reach.explore h.subtypes [] [n] ↔ h.isSubtype t n := by
  rw [Reach.mem_explore_iff_reaches, isSubtype_iff]
  simp only [List.mem_singleton, exists_eq_left, Reach.Reaches, leads_subtypes]
  constructor
  · intro hdown
    rw [← reflTransGen_swap]
    exact ReflTransGen.mono (fun _ _ hstep => hstep.2) n t hdown
  · exact descends_of_ascends hn

/-! ### Concrete subtypes -/

theorem filter_class?_eq_some_iff :
    (h.class? t).filter ClassInfo.isConcrete = some c ↔
      (c ∈ h.classes ∧ c.name = t) ∧ c.isInterface = false ∧ c.isAbstract = false := by
  rw [Option.filter_eq_some_iff, class?_eq_some_iff, ClassInfo.isConcrete, Bool.and_eq_true,
    Bool.not_eq_true', Bool.not_eq_true']

theorem mem_concreteSubtypes_iff (hn : h.contains n) :
    c ∈ h.concreteSubtypes n ↔
      c ∈ h.classes ∧ c.isInterface = false ∧ c.isAbstract = false ∧ h.isSubtype c.name n := by
  rw [concreteSubtypes, List.mem_mergeSort, List.mem_filterMap]
  simp only [mem_explore_subtypes_iff hn, filter_class?_eq_some_iff]
  constructor
  · rintro ⟨t, ht, ⟨hc, rfl⟩, hinterface, habstract⟩
    exact ⟨hc, hinterface, habstract, ht⟩
  · rintro ⟨hc, hinterface, habstract, ht⟩
    exact ⟨c.name, ht, ⟨hc, rfl⟩, hinterface, habstract⟩

/-- Names that compare as smaller or equal, and differ, are in the order of their internal
    forms. -/
theorem internal_lt_of_isLE (hle : (compare t u).isLE) (hne : t ≠ u) : t.internal < u.internal := by
  rcases Ordering.isLE_iff_eq_lt_or_eq_eq.mp hle with hlt | heq
  · exact compareOfLessAndEq_eq_lt.mp hlt
  · exact absurd (Std.LawfulEqOrd.eq_of_compare heq) hne

/-- Concrete subtypes are listed in strictly ascending order of their names. -/
theorem pairwise_concreteSubtypes (h : Hierarchy) (n : TypeName) :
    (h.concreteSubtypes n).Pairwise fun c d => c.name.internal < d.name.internal := by
  rw [concreteSubtypes]
  generalize hfound : (Reach.explore h.subtypes [] [n]).filterMap
    (fun u => (h.class? u).filter ClassInfo.isConcrete) = found
  have hsorted : (found.mergeSort fun c d => (compare c.name d.name).isLE).Pairwise
      fun c d => (compare c.name d.name).isLE := by
    refine List.pairwise_mergeSort ?_ ?_ found
    · intro c d e
      exact Std.TransOrd.isLE_trans
    · intro c d
      rw [Std.OrientedOrd.eq_swap (a := c.name)]
      cases compare d.name c.name <;> rfl
  -- The walk meets no name twice, and a class is found under its name only.
  have hmet : found.Pairwise fun c d => c.name ≠ d.name := by
    rw [← hfound]
    refine List.Pairwise.filterMap _ ?_ (Reach.nodup_explore h.subtypes [] [n])
    intro t u hne c hc d hd hname
    have hct := (filter_class?_eq_some_iff.mp hc).1.2
    have hdu := (filter_class?_eq_some_iff.mp hd).1.2
    exact hne (hct.symm.trans (hname.trans hdu))
  have hdistinct : (found.mergeSort fun c d => (compare c.name d.name).isLE).Pairwise
      fun c d => c.name ≠ d.name :=
    (List.mergeSort_perm found _).symm.pairwise hmet Ne.symm
  -- Sorting alone leaves room for equal names.
  exact hsorted.imp₂ (fun _ _ => internal_lt_of_isLE) hdistinct

/-- In a hierarchy that was built, a type is a subtype of another exactly if it is that type or
    if declared links lead from it to the other, by way of classes that are not left out.  The
    index leads from a type of the hierarchy to exactly the classes that list it.  The concrete
    subtypes of a type of the hierarchy are exactly its subtypes among the concrete classes, each
    once and in ascending order of their names. -/
theorem build_walks_agree (scope : Scope) (h : Hierarchy) (hb : build scope = .ok h) :
    (∀ a b, h.isSubtype a b ↔ a = b ∨ TransGen scope.SupertypeLink a b) ∧
    (∀ a, h.isSubtype a a) ∧
    (∀ a b c, h.isSubtype a b → h.isSubtype b c → h.isSubtype a c) ∧
    (∀ t u, u ∈ Reach.follow h.subtypes t ↔ scope.Names t ∧ scope.SupertypeLink u t) ∧
    ∀ n, scope.Names n →
      (∀ c, c ∈ h.concreteSubtypes n ↔ c ∈ scope.included ∧ c.isInterface = false ∧
        c.isAbstract = false ∧ h.isSubtype c.name n) ∧
      (h.concreteSubtypes n).Nodup ∧
      (h.concreteSubtypes n).Pairwise fun c d => c.name.internal < d.name.internal := by
  obtain ⟨⟨hnames, rfl⟩, -⟩ := build_eq_ok hb
  refine ⟨fun a b => isSubtype_candidate_iff hnames, isSubtype_refl _,
    fun a b c => isSubtype_trans, ?_, ?_⟩
  · intro t u
    have hdown := congrFun (congrFun (leads_subtypes (scope.candidate hnames)) t) u
    rw [Descends, inherits_candidate hnames, eq_iff_iff, contains_iff] at hdown
    exact hdown
  intro n hn
  have hcontains : (scope.candidate hnames).contains n := contains_iff.mpr hn
  have hascending := pairwise_concreteSubtypes (scope.candidate hnames) n
  refine ⟨fun c => mem_concreteSubtypes_iff hcontains, ?_, hascending⟩
  refine hascending.imp ?_
  rintro c d hlt rfl
  exact String.lt_irrefl _ hlt

/-! ### A stall in a circle of interfaces -/

namespace Market

/-- Buyers are sellers and sellers are buyers; the stall lists the buyer twice, and a class that
    is left out; the booth is a stall. -/
def bazaar : Scope :=
  { scopeOf [trade "market.Buyer" ["market.Seller"], trade "market.Seller" ["market.Buyer"],
      stall ["market.Buyer", "market.old.Barn", "market.Buyer"],
      under "market.Booth" "market.Stall"] with
    exclusions := ["market.old."] }

/-- The stall and the booth are concrete subtypes of the seller, though neither lists it. -/
theorem build_walks_agree_bazaar : ∃ h, build bazaar = .ok h ∧
    bazaar.Names (TypeName.ofBinary "market.Seller") ∧
    TransGen bazaar.SupertypeLink (TypeName.ofBinary "market.Booth")
      (TypeName.ofBinary "market.Seller") ∧
    stall ["market.Buyer", "market.old.Barn", "market.Buyer"] ∈
      h.concreteSubtypes (TypeName.ofBinary "market.Seller") ∧
    under "market.Booth" "market.Stall" ∈
      h.concreteSubtypes (TypeName.ofBinary "market.Seller") ∧
    trade "market.Buyer" ["market.Seller"] ∉
      h.concreteSubtypes (TypeName.ofBinary "market.Seller") ∧
    (h.concreteSubtypes (TypeName.ofBinary "market.Seller")).Nodup := by
  obtain ⟨h, hb, hstall, hbooth⟩ : ∃ h, build bazaar = .ok h ∧
      h.isSubtype (TypeName.ofBinary "market.Stall") (TypeName.ofBinary "market.Seller") ∧
      h.isSubtype (TypeName.ofBinary "market.Booth") (TypeName.ofBinary "market.Seller") :=
    exists_ok_of_any (by decide +kernel)
  obtain ⟨hup, -, -, -, hdown⟩ := build_walks_agree bazaar h hb
  have hnamed : bazaar.Names (TypeName.ofBinary "market.Seller") := by
    refine ⟨trade "market.Seller" ["market.Buyer"], ?_, rfl⟩
    decide +kernel
  obtain ⟨hmem, hnodup, -⟩ := hdown _ hnamed
  refine ⟨h, hb, hnamed, ?_, ?_, ?_, ?_, hnodup⟩
  · exact ((hup _ _).mp hbooth).resolve_left (by decide)
  · exact (hmem _).mpr ⟨by decide +kernel, rfl, rfl, hstall⟩
  · exact (hmem _).mpr ⟨by decide +kernel, rfl, rfl, hbooth⟩
  · intro hbuyer
    cases ((hmem _).mp hbuyer).2.1

end Market

end Hierarchy
end StreamVerdict
