/-
  Types with the class loader that defines them.
-/
import StreamVerdict.Jvm.TypeName

namespace StreamVerdict

/-- A class loader; the application loader marks the code of the analysed project. -/
inductive Loader where
  | primordial
  | extension
  | application
  | synthetic
deriving DecidableEq

namespace Loader

instance : Inhabited Loader := ⟨primordial⟩

/-- The position in the order primordial, extension, application, synthetic. -/
def rank : Loader → Nat
  | primordial => 0
  | extension => 1
  | application => 2
  | synthetic => 3

instance : Ord Loader := ⟨compareOn rank⟩

instance : Std.TransOrd Loader := inferInstanceAs (Std.TransCmp (compareOn rank))

def name : Loader → String
  | primordial => "Primordial"
  | extension => "Extension"
  | application => "Application"
  | synthetic => "Synthetic"

def isApplication : Loader → Bool
  | application => true
  | _ => false

end Loader

/-- A type name qualified by its loader. -/
structure TypeRef where
  loader : Loader
  name : TypeName
deriving DecidableEq

namespace TypeRef

instance : Inhabited TypeRef := ⟨⟨default, default⟩⟩

instance : Ord TypeRef := ⟨compareLex (compareOn loader) (compareOn name)⟩

instance : Std.TransOrd TypeRef := inferInstanceAs (Std.TransCmp (compareLex _ _))

def binary (t : TypeRef) : String := t.name.binary

def text (t : TypeRef) : String := "<" ++ t.loader.name ++ "," ++ t.name.internal ++ ">"

end TypeRef
end StreamVerdict
