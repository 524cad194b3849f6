/-
  Writing a method body instruction by instruction.

  A draft numbers its values from one, the parameters first, and its allocations and calls
  by program counters from zero, in the order of issue.  It becomes a body if every value
  that is read is defined and no merge leads back to itself through merges.
-/
import StreamVerdict.Body.Basic
import StreamVerdict.Data.Reach

namespace StreamVerdict

/-- A body in the making. -/
structure Draft where
  method : MethodRef
  isStatic : Bool
  params : List ValueNumber
  instructions : List Instruction
  phis : List Phi
  symbols : SymbolTable
  nextValue : ValueNumber
  nextPc : Nat

namespace Draft

/-- A draft with one more parameter of the given type. -/
def addParam (d : Draft) (t : TypeName) : Draft :=
  { d with
    symbols := d.symbols.define d.nextValue (.param d.params.length t)
    params := d.params ++ [d.nextValue]
    nextValue := d.nextValue + 1 }

/-- The types of the parameters, the declaring class first in instance methods. -/
def parameterTypes (method : MethodRef) (isStatic : Bool) : List TypeName :=
  if isStatic then method.parameterTypes else method.declaringClass.name :: method.parameterTypes

/-- A draft with no instructions. -/
def start (method : MethodRef) (isStatic : Bool) : Draft :=
  let blank : Draft :=
    { method, isStatic, params := [], instructions := [], phis := [], symbols := SymbolTable.empty,
      nextValue := 1, nextPc := 0 }
  (parameterTypes method isStatic).foldl addParam blank

/-- The value of the receiver of an instance method. -/
def receiver? (d : Draft) : Option ValueNumber := if d.isStatic then none else d.params.head?

/-- The value of a declared parameter; the receiver does not count. -/
def param (d : Draft) (index : Nat) : Except BodyError ValueNumber :=
  match d.params[(if d.isStatic then 0 else 1) + index]? with
  | some v => .ok v
  | none => .error (.parameterOutOfRange d.method index)

/-- Allocates an object. -/
def newObject (d : Draft) (t : TypeRef) (line : UInt32) : ValueNumber × Draft :=
  let index := d.instructions.length
  (d.nextValue,
    { d with
      symbols := d.symbols.define d.nextValue (.instruction index)
      instructions := d.instructions ++ [.new index d.nextValue ⟨d.nextPc, t⟩ line]
      nextValue := d.nextValue + 1
      nextPc := d.nextPc + 1 })

/-- Calls a method; the call has a result unless the target returns nothing. -/
def invoke (d : Draft) (target : MethodRef) (kind : Invocation) (args : List ValueNumber)
    (line : UInt32) : Option ValueNumber × Draft :=
  let index := d.instructions.length
  let site : CallSite := ⟨d.nextPc, target, kind⟩
  if target.returnType = TypeName.void then
    (none,
      { d with
        instructions := d.instructions ++ [.invoke index none args site line]
        nextPc := d.nextPc + 1 })
  else
    (some d.nextValue,
      { d with
        symbols := d.symbols.define d.nextValue (.instruction index)
        instructions := d.instructions ++ [.invoke index (some d.nextValue) args site line]
        nextValue := d.nextValue + 1
        nextPc := d.nextPc + 1 })

/-- Merges values. -/
def phi (d : Draft) (uses : List ValueNumber) : ValueNumber × Draft :=
  (d.nextValue,
    { d with
      symbols := d.symbols.define d.nextValue (.phi d.phis.length)
      phis := d.phis ++ [⟨d.nextValue, uses⟩]
      nextValue := d.nextValue + 1 })

/-- The null constant. -/
def null (d : Draft) : ValueNumber × Draft :=
  (d.nextValue,
    { d with
      symbols := d.symbols.define d.nextValue .null
      nextValue := d.nextValue + 1 })

/-- Leaves the method. -/
def ret (d : Draft) (value : Option ValueNumber) (line : UInt32) : Draft :=
  { d with instructions := d.instructions ++ [.ret d.instructions.length value line] }

/-- The values that are read, instructions before merges. -/
def reads (d : Draft) : List ValueNumber :=
  d.instructions.flatMap Instruction.uses ++ d.phis.flatMap Phi.uses

/-- From the result of each merge to the values it merges. -/
def phiLinks (d : Draft) : List (ValueNumber × List ValueNumber) :=
  d.phis.map fun p => (p.result, p.uses)

/-- The merge leads back to itself through merges. -/
def onCycle (d : Draft) (p : Phi) : Bool := p.result ∈ Reach.visit d.phiLinks p.uses

/-- The body that the draft has become. -/
def finish (d : Draft) : Except BodyError Body :=
  match d.reads.find? fun v => (d.symbols.get? v).isNone with
  | some v => .error (.undefinedValue d.method v)
  | none =>
    match d.phis.find? d.onCycle with
    | some p => .error (.cyclicPhi d.method p.result)
    | none =>
      .ok { method := d.method, isStatic := d.isStatic, params := d.params,
            instructions := d.instructions, phis := d.phis, symbols := d.symbols }

end Draft
end StreamVerdict
