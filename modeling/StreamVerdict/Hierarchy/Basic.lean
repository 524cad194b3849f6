/-
  Class hierarchies.

  A hierarchy holds the classes of a scope, and carries the proof that their names are distinct.
  Beside the classes it has an index of the classes that list a type.  It is built only if every
  supertype is in the scope or left out of it, and if no walk along superclasses comes back.
  Subtyping is a walk upward, over superclasses and interfaces; the concrete subtypes of a
  type are collected on a walk downward, along the index.
-/
import StreamVerdict.Data.Reach
import StreamVerdict.Failure
import StreamVerdict.Hierarchy.Class

namespace StreamVerdict

/-- Why a hierarchy could not be built. -/
inductive HierarchyError where
  | scopeUnavailable (project : ProjectId) (reason : String)
  | duplicateClass (name : TypeName)
  | missingSupertype (class_ supertype : TypeName)
  | cyclicInheritance (name : TypeName)
deriving DecidableEq

namespace HierarchyError

def message : HierarchyError → String
  | scopeUnavailable project reason =>
    "Analysis scope unavailable for project '" ++ project.name ++ "': " ++ reason
  | duplicateClass name => "Duplicate class in scope: " ++ name.binary
  | missingSupertype class_ supertype =>
    "Class " ++ class_.binary ++ " refers to unknown supertype " ++ supertype.binary
  | cyclicInheritance name => "Cyclic inheritance through " ++ name.binary

def label : HierarchyError → String
  | scopeUnavailable _ _ => "ScopeUnavailable"
  | duplicateClass _ => "DuplicateClass"
  | missingSupertype _ _ => "MissingSupertype"
  | cyclicInheritance _ => "CyclicInheritance"

instance : Explained HierarchyError := ⟨label, message⟩

def toAnalysisError (e : HierarchyError) : AnalysisError :=
  AnalysisError.ofCause .classHierarchy e.message

end HierarchyError

namespace Hierarchy

/-! ### The index of subtypes -/

/-- The index in which `child` stands last under `parent`. -/
def pushUnder (parent child : TypeName) :
    List (TypeName × List TypeName) → List (TypeName × List TypeName)
  | [] => [(parent, [child])]
  | (t, children) :: index =>
    if t = parent then (t, children ++ [child]) :: index
    else (t, children) :: pushUnder parent child index

/-- A name in its place among names in ascending order, also if it stands there already. -/
def insertName (t : TypeName) : List TypeName → List TypeName
  | [] => [t]
  | u :: us => if (compare t u).isLE then t :: u :: us else u :: insertName t us

/-- Each class with each supertype that it lists, if that is the name of a class too. -/
def inheritance (classes : List ClassInfo) : List (TypeName × TypeName) :=
  classes.flatMap fun c =>
    (c.supertypes.filter fun t => classes.any fun d => d.name = t).map fun t => (c.name, t)

/-- Under each type the classes that list it, in ascending order; a class stands there once for
    each time that it lists the type. -/
def indexOf (classes : List ClassInfo) : List (TypeName × List TypeName) :=
  let pushed := (inheritance classes).foldl (fun index l => pushUnder l.2 l.1 index) []
  pushed.map fun entry => (entry.1, entry.2.foldr insertName [])

end Hierarchy

/-- The classes of a project, and the index of their subtypes. -/
structure Hierarchy where
  project : ProjectId
  classes : List ClassInfo
  subtypes : List (TypeName × List TypeName)
  names_nodup : (classes.map ClassInfo.name).Nodup
  subtypes_eq : subtypes = Hierarchy.indexOf classes
deriving DecidableEq

namespace Hierarchy

/-- The hierarchy of classes with distinct names. -/
def ofClasses (project : ProjectId) (classes : List ClassInfo)
    (h : (classes.map ClassInfo.name).Nodup) : Hierarchy :=
  ⟨project, classes, indexOf classes, h, rfl⟩

/-- The hierarchy without classes. -/
def empty (project : ProjectId) : Hierarchy := ofClasses project [] .nil

def class? (h : Hierarchy) (t : TypeName) : Option ClassInfo := h.classes.find? fun c => c.name = t

def contains (h : Hierarchy) (t : TypeName) : Bool := (h.class? t).isSome

def loader? (h : Hierarchy) (t : TypeName) : Option Loader :=
  (h.class? t).map fun c => c.typeRef.loader

/-! ### Walks -/

/-- From each class to what `next` gives for it. -/
def links (h : Hierarchy) (next : ClassInfo → List TypeName) : List (TypeName × List TypeName) :=
  h.classes.map fun c => (c.name, next c)

/-- The types at or above `t`. -/
def upward (h : Hierarchy) (t : TypeName) : List TypeName :=
  Reach.visit (h.links ClassInfo.supertypes) [t]

/-- `t` and its superclasses, nearest first; a name that comes back ends the walk. -/
def superclasses (h : Hierarchy) (t : TypeName) : List TypeName :=
  Reach.visit (h.links fun c => c.superClass.toList) [t]

/-- The classes of the hierarchy among `t` and its superclasses, nearest first. -/
def chain (h : Hierarchy) (t : TypeName) : List ClassInfo := (h.superclasses t).filterMap h.class?

/-- Reflexive and transitive over superclasses and interfaces. -/
def isSubtype (h : Hierarchy) (sub sup : TypeName) : Bool := sup ∈ h.upward sub

/-- The concrete classes at or below `t`, in ascending order of their names. -/
def concreteSubtypes (h : Hierarchy) (t : TypeName) : List ClassInfo :=
  let found := (Reach.explore h.subtypes [] [t]).filterMap fun u =>
    (h.class? u).filter ClassInfo.isConcrete
  found.mergeSort fun c d => (compare c.name d.name).isLE

/-! ### Construction -/

/-- The first of the names that was met before, earlier among them or among `met`. -/
def firstRepeated? (met : List TypeName) : List TypeName → Option TypeName
  | [] => none
  | t :: ts => if t ∈ met then some t else firstRepeated? (t :: met) ts

theorem nodup_of_firstRepeated? {met ts : List TypeName} (hnone : firstRepeated? met ts = none) :
    ts.Nodup ∧ ∀ t ∈ ts, t ∉ met := by
  induction ts generalizing met with
  | nil => exact ⟨List.nodup_nil, fun t ht => (List.not_mem_nil ht).elim⟩
  | cons t ts ih =>
      rw [firstRepeated?] at hnone
      by_cases ht : t ∈ met
      · rw [if_pos ht] at hnone
        cases hnone
      · rw [if_neg ht] at hnone
        obtain ⟨hnodup, hfresh⟩ := ih hnone
        refine ⟨List.nodup_cons.mpr ⟨fun hmem => hfresh t hmem List.mem_cons_self, hnodup⟩, ?_⟩
        intro u hu
        rcases List.mem_cons.mp hu with rfl | hlater
        · exact ht
        · exact fun hmet => hfresh u hlater (List.mem_cons_of_mem t hmet)

/-- The first class with a supertype that is neither in the hierarchy nor left out of the
    scope, and the first such supertype.  Any such class would do; the order of the scope
    decides. -/
def firstMissing? (h : Hierarchy) (scope : Scope) : Option (TypeName × TypeName) :=
  h.classes.findSome? fun c =>
    (c.supertypes.find? fun t => !h.contains t && !scope.isExcluded t).map fun t => (c.name, t)

/-- The class that a walk along superclasses meets again.  Any such walk would do; the order of
    the scope decides. -/
def firstCyclic? (h : Hierarchy) : Option TypeName :=
  h.classes.findSome? fun c => firstRepeated? [] (h.superclasses c.name)

/-- The hierarchy of a scope. -/
def build (scope : Scope) : Except HierarchyError Hierarchy :=
  match hrepeated : firstRepeated? [] (scope.included.map ClassInfo.name) with
  | some t => .error (.duplicateClass t)
  | none =>
    let h := ofClasses scope.project scope.included (nodup_of_firstRepeated? hrepeated).1
    match h.firstMissing? scope with
    | some (c, t) => .error (.missingSupertype c t)
    | none =>
      match h.firstCyclic? with
      | some t => .error (.cyclicInheritance t)
      | none => .ok h

end Hierarchy

/-- Whatever tells the scopes of projects. -/
abbrev ScopeSource := ProjectId → Except HierarchyError Scope

/-- The class hierarchy of a project, by the scope that is told for it. -/
def ScopeSource.hierarchy (scopes : ScopeSource) (p : ProjectId) :
    Except HierarchyError Hierarchy := do
  Hierarchy.build (← scopes p)

/-- The scopes of the known projects. -/
structure ProjectModel where
  scopes : List Scope
deriving DecidableEq

namespace ProjectModel

/-- A scope in place of an earlier one of the same project. -/
def insert (m : ProjectModel) (s : Scope) : ProjectModel :=
  ⟨m.scopes.filter (fun old => old.project ≠ s.project) ++ [s]⟩

def scope (m : ProjectModel) : ScopeSource := fun p =>
  match m.scopes.find? fun s => s.project = p with
  | some s => .ok s
  | none => .error (.scopeUnavailable p "project not registered")

end ProjectModel
end StreamVerdict
