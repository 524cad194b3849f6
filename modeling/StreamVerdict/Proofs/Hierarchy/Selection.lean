/-
  The method that dispatch selects.

  Dispatch looks at the superclasses of the receiver, nearest first, and then at the interfaces
  that these list and at the interfaces of the interfaces.  It finds a method exactly if one of
  these classes has code for the selector.  The way along superclasses has an end because no
  chain of superclasses comes back; the way through the interfaces has one although chains of
  interfaces may come back, because no interface is expanded twice.

  Among the interfaces the nearest with code wins, not the most specific: an interface that a
  class lists itself is met before one that the class inherits by way of others.
-/
import Mathlib.Data.List.Perm.Subperm
import StreamVerdict.Hierarchy.Dispatch
import StreamVerdict.Proofs.Hierarchy.Subtyping

namespace StreamVerdict

/-- The first declaration of the selector, if it has code. -/
def ClassInfo.code? (c : ClassInfo) (selector : String) : Option DeclaredMethod :=
  (c.findMethod? selector).filter fun m => !m.isAbstract

theorem ClassInfo.code?_eq_some {c : ClassInfo} {selector : String} {m : DeclaredMethod} :
    c.code? selector = some m ↔ c.findMethod? selector = some m ∧ m.isAbstract = false := by
  rw [code?, Option.filter_eq_some_iff, Bool.not_eq_true']

theorem ClassInfo.selector_of_findMethod? {c : ClassInfo} {selector : String} {m : DeclaredMethod}
    (hm : c.findMethod? selector = some m) : m.method.selector = selector := by
  simpa using List.find?_some hm

namespace Hierarchy

open Relation

variable {h : Hierarchy} {scope : Scope} {c : ClassInfo} {i s t : TypeName} {n : Nat}

/-! ### The chain of superclasses -/

/-- The class that `n` steps along superclasses lead to; nothing is remembered on the way. -/
def ancestor? (h : Hierarchy) (t : TypeName) : Nat → Option ClassInfo
  | 0 => h.class? t
  | n + 1 => (h.ancestor? t n).bind fun c => c.superClass.bind h.class?

theorem ancestor?_succ (h : Hierarchy) (t : TypeName) (n : Nat) :
    h.ancestor? t (n + 1) =
      ((h.class? t).bind ClassInfo.superClass).bind fun s => h.ancestor? s n := by
  induction n with
  | zero =>
      rw [Option.bind_assoc]
      rfl
  | succ n ih =>
      rw [ancestor?, ih, Option.bind_assoc]
      rfl

/-- The walk from the superclass of `t` does not come back to `t`. -/
theorem Accepted.notMem_superclasses (hacc : h.Accepted) (hc : h.class? t = some c)
    (hs : c.superClass = some s) : t ∉ h.superclasses s := by
  intro hmem
  obtain ⟨s', hs', hreach⟩ := Reach.mem_visit_iff.mp hmem
  rw [List.mem_singleton] at hs'
  subst hs'
  rw [Reach.Reaches, leads_superClass] at hreach
  exact hacc.acyclic t (TransGen.head' ⟨c, hc, hs⟩ hreach)

theorem Accepted.superclasses_of_superClass (hacc : h.Accepted) (hc : h.class? t = some c)
    (hs : c.superClass = some s) : h.superclasses t = t :: h.superclasses s := by
  have hfollow : Reach.follow (h.links fun c => c.superClass.toList) t = [s] := by
    rw [Reach.follow, next?_links, hc]
    show c.superClass.toList = [s]
    rw [hs]
    rfl
  -- As the walk does not come back to `t`, the links that were taken out are not missed.
  have hback := hacc.notMem_superclasses hc hs
  rw [superclasses, Reach.visit_cons, hfollow, List.nil_append, Reach.visit_without hback]
  rfl

theorem chain_of_no_class (hc : h.class? t = none) : h.chain t = [] := by
  have hwalk : h.superclasses t = [t] := superclasses_of_no_superClass (by rw [hc]; rfl)
  rw [chain, hwalk, List.filterMap_cons_none hc, List.filterMap_nil]

/-- The class itself comes first, then the chain of its superclass. -/
theorem Accepted.chain_eq_cons (hacc : h.Accepted) (hc : h.class? t = some c) :
    h.chain t = c :: (c.superClass.map h.chain).getD [] := by
  cases hs : c.superClass with
  | none =>
      have hwalk : h.superclasses t = [t] := superclasses_of_no_superClass (by rw [hc]; exact hs)
      rw [chain, hwalk, List.filterMap_cons_some hc]
      rfl
  | some s =>
      rw [chain, hacc.superclasses_of_superClass hc hs, List.filterMap_cons_some hc]
      rfl

/-- The chain is the way along superclasses, step by step. -/
theorem Accepted.getElem?_chain (hacc : h.Accepted) (t : TypeName) (n : Nat) :
    (h.chain t)[n]? = h.ancestor? t n := by
  induction n generalizing t with
  | zero =>
      cases hc : h.class? t with
      | none => rw [chain_of_no_class hc, ancestor?, hc, List.getElem?_nil]
      | some c => rw [hacc.chain_eq_cons hc, ancestor?, hc, List.getElem?_cons_zero]
  | succ n ih =>
      rw [ancestor?_succ]
      cases hc : h.class? t with
      | none =>
          rw [chain_of_no_class hc, List.getElem?_nil]
          rfl
      | some c =>
          rw [hacc.chain_eq_cons hc, List.getElem?_cons_succ, Option.bind_some]
          cases hs : c.superClass with
          | none => exact List.getElem?_nil
          | some s => exact ih s

theorem Accepted.mem_chain (hacc : h.Accepted) :
    c ∈ h.chain t ↔ ∃ n, h.ancestor? t n = some c := by
  rw [List.mem_iff_getElem?]
  simp only [hacc.getElem?_chain]

theorem length_chain_le (hnodup : (h.superclasses t).Nodup) :
    (h.chain t).length ≤ h.classes.length := by
  have hdistinct : (h.chain t).Nodup := by
    refine hnodup.filterMap ?_
    intro u v c hu hv
    rw [← name_of_class? hu, ← name_of_class? hv]
  have hsubset : h.chain t ⊆ h.classes := by
    intro c hc
    obtain ⟨u, -, hu⟩ := List.mem_filterMap.mp hc
    exact List.mem_of_find?_eq_some hu
  exact (hdistinct.subperm hsubset).length_le

theorem class?_of_ancestor? (hc : h.ancestor? t n = some c) : h.class? c.name = some c := by
  cases n with
  | zero =>
      rw [name_of_class? hc]
      exact hc
  | succ n =>
      obtain ⟨d, -, hup⟩ := Option.bind_eq_some_iff.mp hc
      obtain ⟨s, -, hs⟩ := Option.bind_eq_some_iff.mp hup
      rw [name_of_class? hs]
      exact hs

theorem isSubtype_of_ancestor? (hc : h.ancestor? t n = some c) : h.isSubtype t c.name := by
  rw [isSubtype_iff]
  induction n generalizing c with
  | zero => rw [name_of_class? hc]
  | succ n ih =>
      -- The last step of the way is the superclass link of the class before.
      obtain ⟨d, hd, hup⟩ := Option.bind_eq_some_iff.mp hc
      obtain ⟨s, hs, hc'⟩ := Option.bind_eq_some_iff.mp hup
      rw [name_of_class? hc']
      exact (ih hd).tail (Or.inl ⟨d, class?_of_ancestor? hd, hs⟩)

/-! ### The interfaces -/

/-- A class on the chain of `t` lists the interface, or `t` is the interface. -/
def Listed (h : Hierarchy) (t i : TypeName) : Prop :=
  (i = t ∧ ∃ c, h.class? t = some c ∧ c.isInterface) ∨
    ∃ n c, h.ancestor? t n = some c ∧ i ∈ c.interfaces

/-- Chains of interfaces lead from those that are listed for `t` to `i`. -/
def Searched (h : Hierarchy) (t i : TypeName) : Prop :=
  ∃ s, h.Listed t s ∧ ReflTransGen h.Implements s i

/-- The interfaces that are listed for `t`, in the order of the search. -/
def listed (h : Hierarchy) (t : TypeName) : List TypeName :=
  (if (h.class? t).any ClassInfo.isInterface then [t] else []) ++
    (h.chain t).flatMap ClassInfo.interfaces

theorem interfaces_eq (h : Hierarchy) (t : TypeName) :
    h.interfaces t = Reach.visit (h.links ClassInfo.interfaces) (h.listed t) := rfl

/-- The search through the interfaces of `t` after `n` steps. -/
def search (h : Hierarchy) (t : TypeName) (n : Nat) : Reach.Search TypeName :=
  (Reach.Search.step (h.links ClassInfo.interfaces))^[n] ⟨[], h.listed t⟩

theorem leads_interfaces : Reach.Leads (h.links ClassInfo.interfaces) = h.Implements := by
  funext t u
  rw [eq_iff_iff, leads_links]
  rfl

theorem Accepted.mem_listed (hacc : h.Accepted) : i ∈ h.listed t ↔ h.Listed t i := by
  have hself : i ∈ (if (h.class? t).any ClassInfo.isInterface then [t] else []) ↔
      i = t ∧ ∃ c, h.class? t = some c ∧ c.isInterface := by
    cases h.class? t with
    | none => simp
    | some c => cases hc : c.isInterface <;> simp [hc]
  have hchain : i ∈ (h.chain t).flatMap ClassInfo.interfaces ↔
      ∃ n c, h.ancestor? t n = some c ∧ i ∈ c.interfaces := by
    rw [List.mem_flatMap]
    constructor
    · rintro ⟨c, hc, hi⟩
      obtain ⟨n, hn⟩ := hacc.mem_chain.mp hc
      exact ⟨n, c, hn, hi⟩
    · rintro ⟨n, c, hn, hi⟩
      exact ⟨c, hacc.mem_chain.mpr ⟨n, hn⟩, hi⟩
  rw [listed, List.mem_append, hself, hchain, Listed]

/-- The search meets exactly the closure of what is listed. -/
theorem Accepted.mem_interfaces (hacc : h.Accepted) : i ∈ h.interfaces t ↔ h.Searched t i := by
  rw [interfaces_eq, Reach.mem_visit_iff]
  simp only [hacc.mem_listed, Reach.Reaches, leads_interfaces]
  rfl

theorem isSubtype_of_searched (hi : h.Searched t i) : h.isSubtype t i := by
  obtain ⟨s, hs, hchain⟩ := hi
  have hup : ReflTransGen h.Inherits s i :=
    ReflTransGen.mono (fun _ _ hlink => Or.inr hlink) s i hchain
  rw [isSubtype_iff]
  rcases hs with ⟨rfl, -⟩ | ⟨n, c, hc, hlisted⟩
  · exact hup
  · have hclass : ReflTransGen h.Inherits t c.name := isSubtype_iff.mp (isSubtype_of_ancestor? hc)
    exact (hclass.tail (Or.inr ⟨c, class?_of_ancestor? hc, hlisted⟩)).trans hup

/-! ### What dispatch finds -/

/-- The class is on the chain of `t`, or is met in the search through its interfaces. -/
def Considered (h : Hierarchy) (t : TypeName) (c : ClassInfo) : Prop :=
  (∃ n, h.ancestor? t n = some c) ∨ ∃ i, h.Searched t i ∧ h.class? i = some c

/-- The code that an interface has for a selector. -/
def default? (h : Hierarchy) (selector : String) (i : TypeName) : Option DeclaredMethod :=
  (h.class? i).bind fun c => c.code? selector

theorem default?_eq_some {selector : String} {m : DeclaredMethod} :
    h.default? selector i = some m ↔ ∃ c, h.class? i = some c ∧ c.code? selector = some m :=
  Option.bind_eq_some_iff

theorem dispatch?_eq (h : Hierarchy) (t : TypeName) (d : MethodRef) :
    h.dispatch? t d =
      (((h.chain t).findSome? fun c => c.code? d.selector).or
        ((h.interfaces t).findSome? (h.default? d.selector))).map DeclaredMethod.method := by
  have hdefault : (h.interfaces t).findSome? (h.default? d.selector) =
      h.defaultInInterfaces? t d.selector := by
    rw [defaultInInterfaces?]
    congr 1
    funext i
    rw [default?]
    cases h.class? i <;> rfl
  rw [hdefault]
  rfl

/-- What is selected is the code of a class that is considered. -/
theorem Accepted.exists_code_of_dispatch? (hacc : h.Accepted) {d m : MethodRef}
    (hm : h.dispatch? t d = some m) :
    ∃ c dm, h.Considered t c ∧ c.code? d.selector = some dm ∧ dm.method = m := by
  rw [dispatch?_eq] at hm
  obtain ⟨dm, hfound, hmethod⟩ := Option.map_eq_some_iff.mp hm
  rcases Option.or_eq_some_iff.mp hfound with hchain | ⟨-, hinterface⟩
  · obtain ⟨c, hc, hcode⟩ := List.exists_of_findSome?_eq_some hchain
    exact ⟨c, dm, Or.inl (hacc.mem_chain.mp hc), hcode, hmethod⟩
  · obtain ⟨i, hi, hdefault⟩ := List.exists_of_findSome?_eq_some hinterface
    obtain ⟨c, hc, hcode⟩ := default?_eq_some.mp hdefault
    exact ⟨c, dm, Or.inr ⟨i, hacc.mem_interfaces.mp hi, hc⟩, hcode, hmethod⟩

/-- If a class that is considered has code, something is selected. -/
theorem Accepted.isSome_dispatch? (hacc : h.Accepted) {d : MethodRef} {dm : DeclaredMethod}
    (hc : h.Considered t c) (hcode : c.code? d.selector = some dm) :
    (h.dispatch? t d).isSome := by
  rw [dispatch?_eq, Option.isSome_map, Option.isSome_or, Bool.or_eq_true,
    List.findSome?_isSome_iff, List.findSome?_isSome_iff]
  rcases hc with hchain | ⟨i, hi, hclass⟩
  · exact Or.inl ⟨c, hacc.mem_chain.mpr hchain, by rw [hcode]; rfl⟩
  · have hdefault : h.default? d.selector i = some dm := default?_eq_some.mpr ⟨c, hclass, hcode⟩
    exact Or.inr ⟨i, hacc.mem_interfaces.mpr hi, by rw [hdefault]; rfl⟩

/-- The nearest code on the chain is selected. -/
theorem Accepted.dispatch?_of_ancestor? (hacc : h.Accepted) {d : MethodRef} {dm : DeclaredMethod}
    (hc : h.ancestor? t n = some c) (hcode : c.code? d.selector = some dm)
    (hnearest : ∀ k < n, ∀ b, h.ancestor? t k = some b → b.code? d.selector = none) :
    h.dispatch? t d = some dm.method := by
  have hfind : (h.chain t).findSome? (fun c => c.code? d.selector) = some dm := by
    have hn : (h.chain t)[n]? = some c := (hacc.getElem?_chain t n).trans hc
    obtain ⟨hlt, hget⟩ := List.getElem?_eq_some_iff.mp hn
    -- The first `n` classes of the chain have no code, and the next one is `c`.
    refine List.findSome?_eq_some_iff.mpr
      ⟨(h.chain t).take n, c, (h.chain t).drop (n + 1), ?_, hcode, ?_⟩
    · rw [← hget, List.getElem_cons_drop, List.take_append_drop]
    · intro b hb
      obtain ⟨k, hk⟩ := List.mem_iff_getElem?.mp hb
      rw [List.getElem?_take] at hk
      split at hk
      · next hkn =>
        rw [hacc.getElem?_chain] at hk
        exact hnearest k hkn b hk
      · cases hk
  rw [dispatch?_eq, hfind]
  rfl

/-- What is to be said about dispatch to a receiver of class `t`. -/
structure Dispatches (h : Hierarchy) (t : TypeName) (d : MethodRef) : Prop where
  /-- A method is found exactly if a class that is considered has code. -/
  found : (h.dispatch? t d).isSome ↔ ∃ c dm, h.Considered t c ∧ c.code? d.selector = some dm
  /-- What is found is code for the selector, declared by a supertype. -/
  sound : ∀ m, h.dispatch? t d = some m → ∃ c ∈ h.classes, ∃ dm, h.isSubtype t c.name ∧
    c.findMethod? d.selector = some dm ∧ dm.isAbstract = false ∧ dm.method = m ∧
    m.selector = d.selector
  /-- The nearest code on the chain comes before all other. -/
  nearest : ∀ n c dm, h.ancestor? t n = some c → c.code? d.selector = some dm →
    (∀ k < n, ∀ b, h.ancestor? t k = some b → b.code? d.selector = none) →
    h.dispatch? t d = some dm.method
  /-- The chain is the way along superclasses, which has an end though nothing is remembered. -/
  climbs : (∀ n, (h.chain t)[n]? = h.ancestor? t n) ∧
    ∃ n ≤ h.classes.length, h.ancestor? t n = none
  /-- The interfaces are met by a search that remembers those it has expanded; it has an end. -/
  searches :
    (∀ n, (h.interfaces t)[n]? = (h.search t n).queue.head?) ∧
    ∃ n ≤ Reach.extent (h.links ClassInfo.interfaces) + (h.listed t).length,
      (h.search t n).queue = []

/-- In a hierarchy that was built, dispatch finds what there is to find: code of the nearest
    superclass that has any, and otherwise code of an interface, if there is any; and it comes
    to an end, also where chains of interfaces come back. -/
theorem build_dispatches (scope : Scope) (h : Hierarchy) (hb : build scope = .ok h) (t : TypeName)
    (d : MethodRef) : h.Dispatches t d where
  found := by
    have hacc := accepted_of_build hb
    constructor
    · intro hsome
      obtain ⟨m, hm⟩ := Option.isSome_iff_exists.mp hsome
      obtain ⟨c, dm, hc, hcode, -⟩ := hacc.exists_code_of_dispatch? hm
      exact ⟨c, dm, hc, hcode⟩
    · rintro ⟨c, dm, hc, hcode⟩
      exact hacc.isSome_dispatch? hc hcode
  sound := by
    intro m hm
    obtain ⟨c, dm, hc, hcode, hmethod⟩ := (accepted_of_build hb).exists_code_of_dispatch? hm
    obtain ⟨hfind, habstract⟩ := ClassInfo.code?_eq_some.mp hcode
    have hselector := ClassInfo.selector_of_findMethod? hfind
    rw [hmethod] at hselector
    have hclass : c ∈ h.classes ∧ h.isSubtype t c.name := by
      rcases hc with ⟨n, hn⟩ | ⟨i, hi, hi'⟩
      · exact ⟨List.mem_of_find?_eq_some (class?_of_ancestor? hn), isSubtype_of_ancestor? hn⟩
      · refine ⟨List.mem_of_find?_eq_some hi', ?_⟩
        rw [name_of_class? hi']
        exact isSubtype_of_searched hi
    exact ⟨c, hclass.1, dm, hclass.2, hfind, habstract, hmethod, hselector⟩
  nearest := by
    intro n c dm hc hcode hnearest
    exact (accepted_of_build hb).dispatch?_of_ancestor? hc hcode hnearest
  climbs := by
    have hacc := accepted_of_build hb
    obtain ⟨-, -, hcyclic⟩ := build_eq_ok hb
    refine ⟨hacc.getElem?_chain t, (h.chain t).length, ?_, ?_⟩
    · exact length_chain_le (nodup_superclasses hcyclic t)
    · rw [← hacc.getElem?_chain]
      exact List.getElem?_eq_none (Nat.le_refl _)
  searches := by
    constructor
    · exact Reach.getElem?_visit (h.links ClassInfo.interfaces) (h.listed t)
    · exact Reach.exists_queue_eq_nil (h.links ClassInfo.interfaces) (h.listed t)

namespace Market

/-- A method of the market without parameters and result. -/
def plain (c : ClassInfo) (name : String) : MethodRef := ⟨c.typeRef, name, [], TypeName.void⟩

def seller : ClassInfo :=
  (trade "market.Seller" ["market.Buyer"]).declare "sell" [] "void" false false

/-- A concrete class of the market. -/
def stall (listed : List String) : ClassInfo :=
  { ClassInfo.concrete .application "market.Stall" with
    interfaces := listed.map TypeName.ofBinary }

/-- A stall is a buyer; buyers are sellers and sellers are buyers. -/
def fair : Scope :=
  scopeOf [trade "market.Buyer" ["market.Seller"], seller, stall ["market.Buyer"]]

/-- The search finds its way through the circle. -/
theorem build_dispatches_fair : ∃ h, build fair = .ok h ∧
    h.dispatch? (stall []).name (plain seller "sell") = some (plain seller "sell") ∧
    h.Dispatches (stall []).name (plain seller "sell") := by
  obtain ⟨h, hb, hfound⟩ : ∃ h, build fair = .ok h ∧
      h.dispatch? (stall []).name (plain seller "sell") = some (plain seller "sell") :=
    exists_ok_of_any (by decide +kernel)
  exact ⟨h, hb, hfound, build_dispatches fair h hb (stall []).name (plain seller "sell")⟩

end Market

/-! ### The nearest interface -/

/-- `n` links lead from the interfaces that are listed for `t` to `i`. -/
def Distant (h : Hierarchy) (t : TypeName) : Nat → TypeName → Prop
  | 0, i => h.Listed t i
  | n + 1, i => ∃ j, h.Distant t n j ∧ h.Implements j i

theorem Accepted.distant_iff (hacc : h.Accepted) :
    h.Distant t n i ↔
      Reach.ReachedIn (h.links ClassInfo.interfaces) (h.listed t) n i := by
  induction n generalizing i with
  | zero =>
      rw [Distant, ← hacc.mem_listed]
      constructor
      · exact Reach.ReachedIn.start
      · rintro ⟨hi⟩
        exact hi
  | succ n ih =>
      rw [Distant]
      constructor
      · rintro ⟨j, hj, hlink⟩
        rw [← leads_interfaces] at hlink
        exact (ih.mp hj).step hlink
      · rintro ⟨⟩
        next j hj hlink =>
        rw [leads_interfaces] at hlink
        exact ⟨j, ih.mpr hj, hlink⟩

/-- The interface `j` of `t` has code for the selector and stands below `i`. -/
def Overrides (h : Hierarchy) (t : TypeName) (selector : String) (j i : TypeName) : Prop :=
  h.isSubtype t j ∧ h.isSubtype j i ∧ ¬ h.isSubtype i j ∧ (h.default? selector j).isSome

instance (h : Hierarchy) (t : TypeName) (selector : String) (j i : TypeName) :
    Decidable (h.Overrides t selector j i) :=
  inferInstanceAs (Decidable (_ ∧ _ ∧ _ ∧ _))

/-- Code that overrides other code is always nearer than what it overrides. -/
def Layered (h : Hierarchy) (t : TypeName) (selector : String) : Prop :=
  ∀ i n, h.Distant t n i → (h.default? selector i).isSome →
    ∀ j, h.Overrides t selector j i → ∃ k < n, h.Distant t k j

/-- Where one link leads from the listed interface to the next and none leads on, code is
    overridden by nearer code if the second interface is overridden by the first only, and the
    first by none. -/
theorem Accepted.layered_of_two (hacc : h.Accepted) {selector : String} {j i : TypeName}
    (hlisted : h.listed t = [j]) (hfirst : (h.class? j).map ClassInfo.interfaces = some [i])
    (hlast : (h.class? i).map ClassInfo.interfaces = some [])
    (hnone : ∀ c ∈ h.classes, ¬ h.Overrides t selector c.name j)
    (honly : ∀ c ∈ h.classes, h.Overrides t selector c.name i → c.name = j) :
    h.Layered t selector := by
  have hzero : ∀ u, h.Distant t 0 u ↔ u = j := by
    intro u
    rw [Distant, ← hacc.mem_listed, hlisted, List.mem_singleton]
  have hstep : ∀ u v ks, (h.class? u).map ClassInfo.interfaces = some ks →
      h.Implements u v → v ∈ ks := by
    rintro u v ks hks ⟨c, hc, hv⟩
    rw [hc, Option.map_some, Option.some.injEq] at hks
    exact hks ▸ hv
  have hone : ∀ u, h.Distant t 1 u → u = i := by
    rintro u ⟨k, hk, hlink⟩
    rw [hzero] at hk
    exact List.mem_singleton.mp (hstep k u [i] (hk ▸ hfirst) hlink)
  have hfar : ∀ n u, ¬ h.Distant t (n + 2) u := by
    intro n
    induction n with
    | zero =>
        rintro u ⟨k, hk, hlink⟩
        exact List.not_mem_nil (hstep k u [] (hone k hk ▸ hlast) hlink)
    | succ n ih =>
        rintro u ⟨k, hk, -⟩
        exact ih k hk
  -- Whatever overrides has code, and so it is a class.
  have hclass : ∀ k u, h.Overrides t selector k u → ∃ c ∈ h.classes, c.name = k := by
    rintro k u ⟨-, -, -, hsome⟩
    obtain ⟨m, hm⟩ := Option.isSome_iff_exists.mp hsome
    obtain ⟨c, hc, -⟩ := default?_eq_some.mp hm
    exact ⟨c, List.mem_of_find?_eq_some hc, name_of_class? hc⟩
  intro u n hu _ k hover
  obtain ⟨c, hc, rfl⟩ := hclass k u hover
  match n with
  | 0 => exact absurd ((hzero u).mp hu ▸ hover) (hnone c hc)
  | 1 => exact ⟨0, Nat.one_pos, (hzero c.name).mpr (honly c hc (hone u hu ▸ hover))⟩
  | n + 2 => exact absurd hu (hfar n u)

/-- If no superclass of the receiver has code, dispatch selects the code of an interface to which
    the fewest links lead.  So the code is not overridden for the receiver if whatever overrides
    other code is nearer; code that overrides the selected one may be just as near or
    farther. -/
theorem build_default_nearest (scope : Scope) (h : Hierarchy) (hb : build scope = .ok h)
    (t : TypeName) (d m : MethodRef)
    (hchain : ∀ n c, h.ancestor? t n = some c → c.code? d.selector = none)
    (hm : h.dispatch? t d = some m) :
    ∃ i n dm, h.Distant t n i ∧ h.default? d.selector i = some dm ∧ dm.method = m ∧
      (∀ j k, h.Distant t k j → (h.default? d.selector j).isSome → n ≤ k) ∧
      (h.Layered t d.selector → ∀ j, ¬ h.Overrides t d.selector j i) := by
  have hacc := accepted_of_build hb
  have hnone : (h.chain t).findSome? (fun c => c.code? d.selector) = none := by
    rw [List.findSome?_eq_none_iff]
    intro c hc
    obtain ⟨n, hn⟩ := hacc.mem_chain.mp hc
    exact hchain n c hn
  rw [dispatch?_eq, hnone, Option.none_or] at hm
  obtain ⟨dm, hfound, hmethod⟩ := Option.map_eq_some_iff.mp hm
  rw [interfaces_eq] at hfound
  obtain ⟨n, i, hreached, hdefault, hleast⟩ := Reach.findSome?_visit_nearest hfound
  have hdistant : h.Distant t n i := hacc.distant_iff.mpr hreached
  have hnearest : ∀ j k, h.Distant t k j → (h.default? d.selector j).isSome → n ≤ k :=
    fun j k hj hsome => hleast k j (hacc.distant_iff.mp hj) hsome
  refine ⟨i, n, dm, hdistant, hdefault, hmethod, hnearest, ?_⟩
  intro hlayered j hover
  obtain ⟨k, hk, hj⟩ := hlayered i n hdistant (by rw [hdefault]; rfl) j hover
  have hle := hnearest j k hj hover.2.2.2
  omega

namespace Market

def trader : ClassInfo := (trade "market.Trader" []).declare "greet" [] "void" false false

/-- A seller greets in a way of its own. -/
def politeSeller : ClassInfo :=
  (trade "market.Seller" ["market.Trader"]).declare "greet" [] "void" false false

/-- The stall lists the trader before the seller, who is a trader. -/
def stand : Scope := scopeOf [trader, politeSeller, stall ["market.Trader", "market.Seller"]]

def greet : MethodRef := plain trader "greet"

theorem built_stand : ∃ h, build stand = .ok h ∧
    h.dispatch? (stall []).name greet = some greet ∧
    (h.default? greet.selector trader.name).map DeclaredMethod.method = some greet ∧
    trader.name ∈ h.listed (stall []).name ∧
    (h.class? politeSeller.name).any ClassInfo.isInterface ∧
    h.Overrides (stall []).name greet.selector politeSeller.name trader.name ∧
    ∀ c ∈ h.chain (stall []).name, c.code? greet.selector = none :=
  exists_ok_of_any (by decide +kernel)

/-- The stall lists the seller only. -/
def row : Scope := scopeOf [trader, politeSeller, stall ["market.Seller"]]

theorem built_row : ∃ h, build row = .ok h ∧
    h.dispatch? (stall []).name greet = some (plain politeSeller "greet") ∧
    h.listed (stall []).name = [politeSeller.name] ∧
    (h.class? politeSeller.name).map ClassInfo.interfaces = some [trader.name] ∧
    (h.class? trader.name).map ClassInfo.interfaces = some [] ∧
    (∀ c ∈ h.classes, ¬ h.Overrides (stall []).name greet.selector c.name politeSeller.name) ∧
    (∀ c ∈ h.classes, h.Overrides (stall []).name greet.selector c.name trader.name →
      c.name = politeSeller.name) ∧
    h.Overrides (stall []).name greet.selector politeSeller.name trader.name ∧
    ∀ c ∈ h.chain (stall []).name, c.code? greet.selector = none :=
  exists_ok_of_any (by decide +kernel)

/-- The code that is selected for the stall on the stand is that of an interface that it lists.
    In the row it is that of the seller, which overrides that of the trader and which nothing
    overrides. -/
theorem build_default_nearest_stand :
    (∃ h, build stand = .ok h ∧
      (∀ n c, h.ancestor? (stall []).name n = some c → c.code? greet.selector = none) ∧
      h.dispatch? (stall []).name greet = some greet ∧
      ∃ i dm, h.Listed (stall []).name i ∧ h.default? greet.selector i = some dm ∧
        dm.method = greet) ∧
    ∃ h, build row = .ok h ∧ h.Layered (stall []).name greet.selector ∧
      h.Overrides (stall []).name greet.selector politeSeller.name trader.name ∧
      ∃ i dm, h.default? greet.selector i = some dm ∧ dm.method = plain politeSeller "greet" ∧
        ∀ j, ¬ h.Overrides (stall []).name greet.selector j i := by
  constructor
  · obtain ⟨h, hb, hfound, hdefault, hlisted, -, -, hchain⟩ := built_stand
    have hacc := accepted_of_build hb
    have hnone : ∀ n c, h.ancestor? (stall []).name n = some c → c.code? greet.selector = none :=
      fun n c hn => hchain c (hacc.mem_chain.mpr ⟨n, hn⟩)
    obtain ⟨i, n, dm, hdistant, hcode, hmethod, hnearest, -⟩ :=
      build_default_nearest stand h hb (stall []).name greet greet hnone hfound
    -- The trader is listed, so nothing that is selected can be farther.
    have hsome : (h.default? greet.selector trader.name).isSome := by
      rw [← Option.isSome_map, hdefault]
      rfl
    have hzero : n = 0 :=
      Nat.le_zero.mp (hnearest trader.name 0 (hacc.mem_listed.mp hlisted) hsome)
    subst hzero
    exact ⟨h, hb, hnone, hfound, i, dm, hdistant, hcode, hmethod⟩
  · obtain ⟨h, hb, hfound, hlisted, hfirst, hlast, hfree, honly, hover, hchain⟩ := built_row
    have hacc := accepted_of_build hb
    have hnone : ∀ n c, h.ancestor? (stall []).name n = some c → c.code? greet.selector = none :=
      fun n c hn => hchain c (hacc.mem_chain.mpr ⟨n, hn⟩)
    have hlayered := hacc.layered_of_two hlisted hfirst hlast hfree honly
    obtain ⟨i, n, dm, -, hcode, hmethod, -, hspecific⟩ :=
      build_default_nearest row h hb (stall []).name greet (plain politeSeller "greet") hnone hfound
    exact ⟨h, hb, hlayered, hover, i, dm, hcode, hmethod, hspecific hlayered⟩

/-- The greeting of the trader is selected, although the seller, who is a trader and is listed
    too, overrides it. -/
theorem build_selects_overridden : ∃ h, build stand = .ok h ∧
    (∀ n c, h.ancestor? (stall []).name n = some c → c.code? greet.selector = none) ∧
    h.dispatch? (stall []).name greet = some greet ∧
    (h.default? greet.selector trader.name).map DeclaredMethod.method = some greet ∧
    (h.class? politeSeller.name).any ClassInfo.isInterface ∧
    h.Overrides (stall []).name greet.selector politeSeller.name trader.name := by
  obtain ⟨h, hb, hfound, hdefault, -, hinterface, hover, hchain⟩ := built_stand
  refine ⟨h, hb, ?_, hfound, hdefault, hinterface, hover⟩
  intro n c hn
  exact hchain c ((accepted_of_build hb).mem_chain.mpr ⟨n, hn⟩)

end Market

end Hierarchy
end StreamVerdict
