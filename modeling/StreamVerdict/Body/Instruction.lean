/-
  Instructions of a method body in single assignment form.
-/
import StreamVerdict.Jvm.Method

namespace StreamVerdict

/-- The number of a value within a method body. -/
abbrev ValueNumber := Nat

/-- An instruction, with its position in the body and the source line it stems from. -/
inductive Instruction where
  /-- Allocates an object. -/
  | new (index : Nat) (result : ValueNumber) (site : NewSite) (line : UInt32)
  /-- Calls a method; a call of a method that returns nothing has no result. -/
  | invoke (index : Nat) (result : Option ValueNumber) (args : List ValueNumber) (site : CallSite)
      (line : UInt32)
  /-- Leaves the method, with a value or without. -/
  | ret (index : Nat) (value : Option ValueNumber) (line : UInt32)
deriving DecidableEq

namespace Instruction

def index : Instruction → Nat
  | new i _ _ _ => i
  | invoke i _ _ _ _ => i
  | ret i _ _ => i

def line : Instruction → UInt32
  | new _ _ _ l => l
  | invoke _ _ _ _ l => l
  | ret _ _ l => l

/-- The value that the instruction defines. -/
def result? : Instruction → Option ValueNumber
  | new _ v _ _ => some v
  | invoke _ v _ _ _ => v
  | ret _ _ _ => none

/-- The values that the instruction reads. -/
def uses : Instruction → List ValueNumber
  | new _ _ _ _ => []
  | invoke _ _ args _ _ => args
  | ret _ v _ => v.toList

def callSite? : Instruction → Option CallSite
  | invoke _ _ _ site _ => some site
  | _ => none

def newSite? : Instruction → Option NewSite
  | new _ _ site _ => some site
  | _ => none

/-- The object that a call is made on; static calls have none. -/
def receiver? : Instruction → Option ValueNumber
  | invoke _ _ args site _ => if site.kind.isStatic then none else args.head?
  | _ => none

/-- The value that the instruction returns from the method. -/
def returned? : Instruction → Option ValueNumber
  | ret _ v _ => v
  | _ => none

end Instruction

/-- A merge of control flow: `result` is one of `uses`. -/
structure Phi where
  result : ValueNumber
  uses : List ValueNumber
deriving DecidableEq

end StreamVerdict
