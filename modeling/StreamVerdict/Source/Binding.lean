/-
  What source code refers to: projects, resolved types and resolved methods.
-/
import StreamVerdict.Jvm.Method
import StreamVerdict.Source.Location

namespace StreamVerdict

/-- The identity of a project. -/
structure ProjectId where
  name : String
deriving DecidableEq

/-- The erased type of an expression, by its binary name. -/
structure TypeBinding where
  binaryName : String
deriving DecidableEq

namespace TypeBinding

/-- The name in source code, where a nested class follows a dot. -/
def qualifiedName (t : TypeBinding) : String := Text.replace '$' '.' t.binaryName

def typeName (t : TypeBinding) : TypeName := TypeName.ofBinary t.binaryName

end TypeBinding

/-- A method that source code invokes or declares. -/
structure MethodBinding where
  declaringType : TypeBinding
  name : String
  parameterTypes : List TypeBinding
  returnType : TypeBinding
  isStatic : Bool
  loader : Loader
deriving DecidableEq

namespace MethodBinding

/-- The name and the qualified parameter types, as in `generate(java.util.function.Supplier)`. -/
def identifier (m : MethodBinding) : String :=
  m.name ++ "(" ++ String.intercalate "," (m.parameterTypes.map TypeBinding.qualifiedName) ++ ")"

/-- The method on the virtual machine. -/
def methodRef (m : MethodBinding) : MethodRef :=
  { declaringClass := ⟨m.loader, m.declaringType.typeName⟩
    name := m.name
    parameterTypes := m.parameterTypes.map TypeBinding.typeName
    returnType := m.returnType.typeName }

end MethodBinding

/-- A method declaration in a source file. -/
structure MethodDeclaration where
  binding : MethodBinding
  span : Span
deriving DecidableEq

def MethodDeclaration.methodRef (d : MethodDeclaration) : MethodRef := d.binding.methodRef

end StreamVerdict
