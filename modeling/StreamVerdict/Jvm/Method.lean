/-
  Methods, and the places in code that call methods or allocate objects.

  The selector of a method, its name with its descriptor, is what dispatch compares; the
  signature adds the declaring class.
-/
import StreamVerdict.Jvm.TypeRef

namespace StreamVerdict

/-- A method of a class. -/
structure MethodRef where
  declaringClass : TypeRef
  name : String
  parameterTypes : List TypeName
  returnType : TypeName
deriving DecidableEq

namespace MethodRef

instance : Inhabited MethodRef := ⟨⟨default, "", [], default⟩⟩

instance : Ord MethodRef :=
  ⟨compareLex (compareOn declaringClass) (compareLex (compareOn name)
    (compareLex (compareOn parameterTypes) (compareOn returnType)))⟩

instance : Std.TransOrd MethodRef := inferInstanceAs (Std.TransCmp (compareLex _ _))

/-- Parameter types in parentheses, then the return type. -/
def descriptor (m : MethodRef) : String :=
  "(" ++ String.join (m.parameterTypes.map TypeName.descriptor) ++ ")" ++ m.returnType.descriptor

def selector (m : MethodRef) : String := m.name ++ m.descriptor

def signature (m : MethodRef) : String := m.declaringClass.binary ++ "." ++ m.selector

/-- The name and the parameter types as source code writes them. -/
def identifier (m : MethodRef) : String :=
  m.name ++ "(" ++ String.intercalate "," (m.parameterTypes.map TypeName.binary) ++ ")"

def isInitializer (m : MethodRef) : Bool := m.name = "<init>"

/-- The method of the same name and types in another class. -/
def redeclaredIn (m : MethodRef) (c : TypeRef) : MethodRef := { m with declaringClass := c }

end MethodRef

/-- How a call finds its target. -/
inductive Invocation where
  | virtual
  | interface
  | special
  | static
deriving DecidableEq

namespace Invocation

def rank : Invocation → Nat
  | virtual => 0
  | interface => 1
  | special => 2
  | static => 3

instance : Ord Invocation := ⟨compareOn rank⟩

instance : Std.TransOrd Invocation := inferInstanceAs (Std.TransCmp (compareOn rank))

def name : Invocation → String
  | virtual => "virtual"
  | interface => "interface"
  | special => "special"
  | static => "static"

def isStatic : Invocation → Bool
  | static => true
  | _ => false

/-- The target depends on the class of the receiver. -/
def isDispatch : Invocation → Bool
  | virtual => true
  | interface => true
  | _ => false

end Invocation

/-- A call in a method body. -/
structure CallSite where
  programCounter : Nat
  declaredTarget : MethodRef
  kind : Invocation
deriving DecidableEq

namespace CallSite

instance : Ord CallSite :=
  ⟨compareLex (compareOn programCounter) (compareLex (compareOn declaredTarget) (compareOn kind))⟩

instance : Std.TransOrd CallSite := inferInstanceAs (Std.TransCmp (compareLex _ _))

def text (s : CallSite) : String :=
  "invoke" ++ s.kind.name ++ "@" ++ toString s.programCounter ++ " " ++ s.declaredTarget.signature

end CallSite

/-- An allocation in a method body. -/
structure NewSite where
  programCounter : Nat
  declaredType : TypeRef
deriving DecidableEq

namespace NewSite

instance : Ord NewSite := ⟨compareLex (compareOn programCounter) (compareOn declaredType)⟩

instance : Std.TransOrd NewSite := inferInstanceAs (Std.TransCmp (compareLex _ _))

def text (s : NewSite) : String :=
  "new@" ++ toString s.programCounter ++ " " ++ s.declaredType.text

end NewSite
end StreamVerdict
