/-
  What resolution and dispatch find.

  Both look along superclasses and through interfaces only at classes of the hierarchy, so that
  whatever they find is declared by one of these.
-/
import StreamVerdict.Hierarchy.Dispatch

namespace StreamVerdict
namespace Hierarchy

variable {h : Hierarchy} {t : TypeName} {selector : String} {d : DeclaredMethod}

/-- Some class of the hierarchy declares the method. -/
def Declares (h : Hierarchy) (d : DeclaredMethod) : Prop := ∃ c ∈ h.classes, d ∈ c.methods

theorem declares_of_findMethod? {c : ClassInfo} (hc : c ∈ h.classes)
    (hd : c.findMethod? selector = some d) : h.Declares d :=
  ⟨c, hc, List.mem_of_find?_eq_some hd⟩

theorem mem_classes_of_class? {c : ClassInfo} (hc : h.class? t = some c) : c ∈ h.classes :=
  List.mem_of_find?_eq_some hc

theorem mem_classes_of_mem_chain {c : ClassInfo} (hc : c ∈ h.chain t) : c ∈ h.classes := by
  obtain ⟨u, -, hu⟩ := List.mem_filterMap.mp hc
  exact mem_classes_of_class? hu

theorem mem_classes_of_mem_concreteSubtypes {c : ClassInfo} (hc : c ∈ h.concreteSubtypes t) :
    c ∈ h.classes := by
  rw [concreteSubtypes, List.mem_mergeSort, List.mem_filterMap] at hc
  obtain ⟨u, -, hu⟩ := hc
  exact mem_classes_of_class? (Option.filter_eq_some_iff.mp hu).1

theorem declares_of_inSuperclasses? (hd : h.inSuperclasses? t selector = some d) :
    h.Declares d := by
  obtain ⟨c, hc, hfind⟩ := List.exists_of_findSome?_eq_some hd
  exact declares_of_findMethod? (mem_classes_of_mem_chain hc) hfind

theorem declares_of_concreteInSuperclasses?
    (hd : h.concreteInSuperclasses? t selector = some d) : h.Declares d := by
  obtain ⟨c, hc, hfind⟩ := List.exists_of_findSome?_eq_some hd
  exact declares_of_findMethod? (mem_classes_of_mem_chain hc) (Option.filter_eq_some_iff.mp hfind).1

theorem declares_of_bind_findMethod?
    (hd : ((h.class? t).bind fun c => c.findMethod? selector) = some d) : h.Declares d := by
  obtain ⟨c, hc, hfind⟩ := Option.bind_eq_some_iff.mp hd
  exact declares_of_findMethod? (mem_classes_of_class? hc) hfind

theorem declares_of_defaultInInterfaces? (hd : h.defaultInInterfaces? t selector = some d) :
    h.Declares d := by
  obtain ⟨i, -, hfind⟩ := List.exists_of_findSome?_eq_some hd
  exact declares_of_bind_findMethod? (Option.filter_eq_some_iff.mp hfind).1

theorem declares_of_inInterfaces? (hd : h.inInterfaces? t selector = some d) : h.Declares d := by
  rw [inInterfaces?, Option.or_eq_some_iff] at hd
  rcases hd with hdefault | ⟨-, habstract⟩
  · exact declares_of_defaultInInterfaces? hdefault
  · obtain ⟨i, -, hfind⟩ := List.exists_of_findSome?_eq_some habstract
    exact declares_of_bind_findMethod? hfind

theorem declares_of_resolve? {m : MethodRef} (hd : h.resolve? m = some d) : h.Declares d := by
  rw [resolve?, Option.or_eq_some_iff] at hd
  rcases hd with hsuper | ⟨-, hinterface⟩
  · exact declares_of_inSuperclasses? hsuper
  · exact declares_of_inInterfaces? hinterface

theorem declares_of_dispatch? {m m' : MethodRef} (hm : h.dispatch? t m = some m') :
    ∃ d, h.Declares d ∧ d.method = m' := by
  obtain ⟨d, hd, rfl⟩ := Option.map_eq_some_iff.mp hm
  rw [Option.or_eq_some_iff] at hd
  rcases hd with hsuper | ⟨-, hinterface⟩
  · exact ⟨d, declares_of_concreteInSuperclasses? hsuper, rfl⟩
  · exact ⟨d, declares_of_defaultInInterfaces? hinterface, rfl⟩

end Hierarchy
end StreamVerdict
