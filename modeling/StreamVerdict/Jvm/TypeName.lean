/-
  Names of types on the virtual machine.

  A type is named in internal form: a code letter for a primitive type, an `L` before a class
  name with slashes, and a bracket before the name of an array's elements.  The binary form
  is the one of source code: keywords, dots, and a pair of brackets after the element type.
  `ofBinary` and `binary` lead from one form to the other.
-/
import StreamVerdict.Data.Text

namespace StreamVerdict

/-- The primitive types, `void` among them. -/
inductive Primitive where
  | boolean
  | byte
  | char
  | short
  | int
  | long
  | float
  | double
  | void
deriving DecidableEq

namespace Primitive

def all : List Primitive := [boolean, byte, char, short, int, long, float, double, void]

def keyword : Primitive → String
  | boolean => "boolean"
  | byte => "byte"
  | char => "char"
  | short => "short"
  | int => "int"
  | long => "long"
  | float => "float"
  | double => "double"
  | void => "void"

def code : Primitive → Char
  | boolean => 'Z'
  | byte => 'B'
  | char => 'C'
  | short => 'S'
  | int => 'I'
  | long => 'J'
  | float => 'F'
  | double => 'D'
  | void => 'V'

/-- The primitive type with the given keyword. -/
def ofKeyword? (cs : List Char) : Option Primitive := all.find? fun p => p.keyword.toList = cs

/-- The primitive type whose code is the whole of the given text. -/
def ofCode? (cs : List Char) : Option Primitive := all.find? fun p => [p.code] = cs

end Primitive

/-- The name of a type in internal form. -/
structure TypeName where
  internal : String
deriving DecidableEq

namespace TypeName

instance : Inhabited TypeName := ⟨⟨""⟩⟩

instance : Ord TypeName := ⟨compareOn internal⟩

instance : Std.TransOrd TypeName := inferInstanceAs (Std.TransCmp (compareOn internal))

/-- The internal form of an element type in binary form. -/
def internalOfElement (cs : List Char) : List Char :=
  match Primitive.ofKeyword? cs with
  | some p => [p.code]
  | none => 'L' :: cs.map fun c => if c = '.' then '/' else c

/-- The internal form of a binary name that is given backwards, so that the brackets of an
    array come first. -/
def internalOfReversed : List Char → List Char
  | ']' :: '[' :: rest => '[' :: internalOfReversed rest
  | cs => internalOfElement cs.reverse

/-- The type with the given binary name. -/
def ofBinary (binary : String) : TypeName :=
  ⟨String.ofList (internalOfReversed binary.toList.reverse)⟩

/-- The binary form of an internal name without array brackets. -/
def binaryOfElement (cs : List Char) : List Char :=
  match Primitive.ofCode? cs with
  | some p => p.keyword.toList
  | none =>
    let named := if cs.head? = some 'L' then cs.drop 1 else cs
    let trimmed := (named.reverse.dropWhile (· = ';')).reverse
    trimmed.map fun c => if c = '/' then '.' else c

/-- The binary form of an internal name. -/
def binaryOfInternal : List Char → List Char
  | '[' :: rest => binaryOfInternal rest ++ ['[', ']']
  | cs => binaryOfElement cs

/-- The name as source code writes it. -/
def binary (t : TypeName) : String := String.ofList (binaryOfInternal t.internal.toList)

def isArray (t : TypeName) : Bool := t.internal.toList.head? = some '['

def isPrimitive (t : TypeName) : Bool := (Primitive.ofCode? t.internal.toList).isSome

def isClass (t : TypeName) : Bool := t.internal.toList.head? = some 'L'

/-- The part of the binary name before its last dot. -/
def package? (t : TypeName) : Option String := Text.beforeLast? '.' t.binary

/-- The part of the binary name after its last dot. -/
def simpleName (t : TypeName) : String := Text.afterLast '.' t.binary

/-- An internal name as it stands in a method descriptor: a class ends in a semicolon. -/
def descriptorOfInternal : List Char → List Char
  | '[' :: rest => '[' :: descriptorOfInternal rest
  | 'L' :: rest => 'L' :: rest ++ [';']
  | cs => cs

def descriptor (t : TypeName) : String := String.ofList (descriptorOfInternal t.internal.toList)

/-- The type of methods that return nothing. -/
def void : TypeName := ⟨"V"⟩

end TypeName
end StreamVerdict
