/-
  Classes and interfaces, and the scope of classes that an analysis sees.
-/
import StreamVerdict.Source.Binding

namespace StreamVerdict

/-- A method declared by a class. -/
structure DeclaredMethod where
  method : MethodRef
  isAbstract : Bool
  isStatic : Bool
deriving DecidableEq

/-- A class or an interface. -/
structure ClassInfo where
  typeRef : TypeRef
  superClass : Option TypeName
  interfaces : List TypeName
  isInterface : Bool
  isAbstract : Bool
  methods : List DeclaredMethod
deriving DecidableEq

namespace ClassInfo

/-- The name of the class at the top of every hierarchy. -/
def rootName : TypeName := TypeName.ofBinary "java.lang.Object"

/-- A concrete class without interfaces and methods. -/
def concrete (loader : Loader) (binary : String) : ClassInfo :=
  { typeRef := ⟨loader, TypeName.ofBinary binary⟩
    superClass := some rootName
    interfaces := []
    isInterface := false
    isAbstract := false
    methods := [] }

/-- The class at the top, which has no superclass. -/
def root (loader : Loader) : ClassInfo :=
  { concrete loader "java.lang.Object" with superClass := none }

def interface (loader : Loader) (binary : String) : ClassInfo :=
  { concrete loader binary with isInterface := true, isAbstract := true }

def abstract (loader : Loader) (binary : String) : ClassInfo :=
  { concrete loader binary with isAbstract := true }

/-- The class with one more method, declared after the others. -/
def declare (c : ClassInfo) (name : String) (params : List String) (ret : String)
    (isAbstract isStatic : Bool) : ClassInfo :=
  let method : MethodRef :=
    { declaringClass := c.typeRef
      name
      parameterTypes := params.map TypeName.ofBinary
      returnType := TypeName.ofBinary ret }
  { c with methods := c.methods ++ [⟨method, isAbstract, isStatic⟩] }

def name (c : ClassInfo) : TypeName := c.typeRef.name

/-- Neither an interface nor abstract: objects of exactly this class exist. -/
def isConcrete (c : ClassInfo) : Bool := !c.isInterface && !c.isAbstract

/-- The first declared method with the given selector. -/
def findMethod? (c : ClassInfo) (selector : String) : Option DeclaredMethod :=
  c.methods.find? fun m => m.method.selector = selector

/-- The superclass, then the interfaces. -/
def supertypes (c : ClassInfo) : List TypeName := c.superClass.toList ++ c.interfaces

end ClassInfo

/-- The classes of one project, with the binary names that are left out. -/
structure Scope where
  project : ProjectId
  classes : List ClassInfo
  /-- A class whose binary name begins with one of these is left out. -/
  exclusions : List String
deriving DecidableEq

namespace Scope

def isExcluded (s : Scope) (t : TypeName) : Bool :=
  s.exclusions.any fun head => Text.startsWith head t.binary

/-- The classes that are not left out. -/
def included (s : Scope) : List ClassInfo := s.classes.filter fun c => !s.isExcluded c.name

end Scope
end StreamVerdict
