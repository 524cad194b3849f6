/-
  Catalogs of types that can be probed.

  A catalog says of a type what kind it is, how an object of it can be made, whether the
  object is iterable, and what its methods without arguments do.
-/
import StreamVerdict.Failure
import StreamVerdict.Ordering.SourceOrder

namespace StreamVerdict

inductive TypeKind where
  | concrete
  | abstract
  | interface
deriving DecidableEq

namespace TypeKind

def all : List TypeKind := [concrete, abstract, interface]

def name : TypeKind → String
  | concrete => "class"
  | abstract => "abstract_class"
  | interface => "interface"

def isInstantiable (k : TypeKind) : Bool := k = concrete

end TypeKind

/-- How an object of a type can be made. -/
inductive Constructibility where
  /-- By a constructor without arguments. -/
  | zeroArg
  /-- Only by allocation without a constructor. -/
  | bypassOnly
  | none
deriving DecidableEq

namespace Constructibility

def all : List Constructibility := [zeroArg, bypassOnly, none]

def name : Constructibility → String
  | zeroArg => "zero_arg"
  | bypassOnly => "bypass_only"
  | none => "none"

end Constructibility

/-- What a method without arguments does. -/
inductive MethodBehaviour where
  | stream (c : Characteristics)
  /-- It returns an object of another type. -/
  | returns (type : String)
  | void
  | throws (reason : String)
deriving DecidableEq

/-- What a catalog says of a type. -/
structure TypeDescriptor where
  binaryName : String
  kind : TypeKind
  construction : Constructibility
  /-- The characteristics of the type's own spliterator, if it is iterable. -/
  iterable : Option Characteristics
  /-- The methods by their names. -/
  methods : List (String × MethodBehaviour)
deriving DecidableEq

/-- Why a probe failed. -/
inductive ProbeError where
  | typeNotFound (type : String)
  | constructionFailed (type reason : String)
  | invocationFailed (type method reason : String)
  | noSpliterator (type : String)
  | internal (reason : String)
deriving DecidableEq

namespace ProbeError

def message : ProbeError → String
  | typeNotFound t => "Type not found in probe runtime: " ++ t
  | constructionFailed t reason => "Cannot construct " ++ t ++ ": " ++ reason
  | invocationFailed t m reason => "Invocation of " ++ t ++ "." ++ m ++ " failed: " ++ reason
  | noSpliterator t => "Stream of " ++ t ++ " exposes no spliterator"
  | internal reason => "Probe runtime failure: " ++ reason

def label : ProbeError → String
  | typeNotFound _ => "TypeNotFound"
  | constructionFailed _ _ => "ConstructionFailed"
  | invocationFailed _ _ _ => "InvocationFailed"
  | noSpliterator _ => "NoSpliterator"
  | internal _ => "Internal"

instance : Explained ProbeError := ⟨label, message⟩

def toAnalysisError (e : ProbeError) : AnalysisError := AnalysisError.ofCause .probe e.message

end ProbeError

/-- Descriptors under distinct names. -/
structure Catalog where
  types : List TypeDescriptor
  unique : (types.map TypeDescriptor.binaryName).Nodup
deriving DecidableEq

namespace Catalog

def empty : Catalog := ⟨[], .nil⟩

theorem nodup_names_append {ds : List TypeDescriptor}
    (h : (ds.map TypeDescriptor.binaryName).Nodup) (d : TypeDescriptor) :
    ((ds.filter (fun old => old.binaryName ≠ d.binaryName) ++ [d]).map
      TypeDescriptor.binaryName).Nodup := by
  rw [List.map_append, List.nodup_append]
  refine ⟨h.sublist (List.filter_sublist.map _), List.pairwise_singleton _ _, ?_⟩
  intro a ha b hb hab
  obtain ⟨old, hold, rfl⟩ := List.mem_map.mp ha
  have hother : old.binaryName ≠ d.binaryName := by simpa using (List.mem_filter.mp hold).2
  exact hother (hab.trans (List.mem_singleton.mp hb))

/-- A descriptor in place of an earlier one of the same name. -/
def insert (c : Catalog) (d : TypeDescriptor) : Catalog :=
  ⟨c.types.filter (fun old => old.binaryName ≠ d.binaryName) ++ [d], nodup_names_append c.unique d⟩

def insertAll (c : Catalog) (ds : List TypeDescriptor) : Catalog := ds.foldl insert c

def descriptor? (c : Catalog) (name : String) : Option TypeDescriptor :=
  c.types.find? fun d => d.binaryName = name

/-- The descriptor of a type that has to be there. -/
def load (c : Catalog) (name : String) : Except ProbeError TypeDescriptor :=
  match c.descriptor? name with
  | some d => .ok d
  | none => .error (.typeNotFound name)

end Catalog

namespace TypeDescriptor

/-- Making an object by the constructor without arguments: the reason why not, if there is
    one. -/
def constructRefusal? (d : TypeDescriptor) : Option String :=
  if d.kind.isInstantiable = false then some "not a concrete class"
  else
    match d.construction with
    | .zeroArg => none
    | _ => some "no accessible no-argument constructor"

/-- Making an object without a constructor: the reason why not, if there is one. -/
def allocateRefusal? (d : TypeDescriptor) : Option String :=
  if d.kind.isInstantiable ∧ d.construction ≠ .none then none else some "allocation refused"

/-- A concrete class that is iterable itself. -/
def ofIterable (binaryName : String) (construction : Constructibility) (traits : List UInt32) :
    TypeDescriptor :=
  { binaryName
    kind := .concrete
    construction
    iterable := some ⟨traits.foldl (· ||| ·) 0⟩
    methods := [] }

/-- A type without objects of its own. -/
def nonInstantiable (kind : TypeKind) (binaryName : String) : TypeDescriptor :=
  { binaryName, kind, construction := .none, iterable := none, methods := [] }

end TypeDescriptor

namespace Catalog

open Characteristics TypeDescriptor

/-- Lists and deques of `java.util`, which are all ordered. -/
def sequences : List TypeDescriptor :=
  [ ofIterable "java.util.ArrayList" .zeroArg [ordered, sized, subsized],
    ofIterable "java.util.LinkedList" .zeroArg [ordered, sized],
    ofIterable "java.util.Vector" .zeroArg [ordered, sized, subsized],
    ofIterable "java.util.Stack" .zeroArg [ordered, sized, subsized],
    ofIterable "java.util.ArrayDeque" .zeroArg [ordered, sized, subsized, nonnull],
    ofIterable "java.util.concurrent.CopyOnWriteArrayList" .zeroArg
      [ordered, sized, subsized, immutable],
    ofIterable "java.util.concurrent.ConcurrentLinkedQueue" .zeroArg [ordered, nonnull, concurrent],
    ofIterable "java.util.Arrays$ArrayList" .bypassOnly [ordered, sized, subsized] ]

/-- Sets and priority queues of `java.util`. -/
def sets : List TypeDescriptor :=
  [ ofIterable "java.util.HashSet" .zeroArg [distinct, sized],
    ofIterable "java.util.LinkedHashSet" .zeroArg [distinct, ordered, sized],
    ofIterable "java.util.TreeSet" .zeroArg [distinct, sorted, ordered, sized],
    ofIterable "java.util.PriorityQueue" .zeroArg [sized, subsized, nonnull],
    ofIterable "java.util.concurrent.ConcurrentSkipListSet" .zeroArg
      [distinct, sorted, ordered, nonnull, concurrent] ]

def interfaces : List TypeDescriptor :=
  [ "java.lang.Iterable", "java.util.Collection", "java.util.List", "java.util.Set",
    "java.util.SortedSet", "java.util.Queue", "java.util.Deque",
    "java.util.stream.Stream" ].map (nonInstantiable .interface)

def abstractClasses : List TypeDescriptor :=
  [ "java.util.AbstractCollection", "java.util.AbstractList", "java.util.AbstractSequentialList",
    "java.util.AbstractSet", "java.util.AbstractQueue",
    "java.util.EnumSet" ].map (nonInstantiable .abstract)

/-- The common collections of `java.util`. -/
def javaUtil : Catalog :=
  empty.insertAll (sequences ++ sets ++ interfaces ++ abstractClasses)

end Catalog
end StreamVerdict
