/-
  Static types of values: nothing known, exactly a type, or a type and all its subtypes.
-/
import StreamVerdict.Data.OrdSet
import StreamVerdict.Jvm.TypeRef

namespace StreamVerdict

/-- What is known about the type of a value. -/
inductive StaticType where
  /-- No information. -/
  | top
  /-- Exactly this type. -/
  | point (t : TypeRef)
  /-- This type or a subtype. -/
  | cone (t : TypeRef)
deriving DecidableEq

namespace StaticType

def rank : StaticType → Nat
  | top => 0
  | point _ => 1
  | cone _ => 2

def isTop : StaticType → Bool
  | top => true
  | _ => false

def typeRef? : StaticType → Option TypeRef
  | top => none
  | point t => some t
  | cone t => some t

instance : Ord StaticType := ⟨compareLex (compareOn rank) (compareOn typeRef?)⟩

instance : Std.TransOrd StaticType := inferInstanceAs (Std.TransCmp (compareLex _ _))

def text : StaticType → String
  | top => "TOP"
  | point t => "point<" ++ t.binary ++ ">"
  | cone t => "cone<" ++ t.binary ++ ">"

end StaticType
end StreamVerdict
