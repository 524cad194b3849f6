/-
  The instruction that a stream creation was compiled to.
-/
import StreamVerdict.Body.Basic
import StreamVerdict.Source.CreationSite

namespace StreamVerdict

/-- A call that creates a stream. -/
structure Creation where
  index : Nat
  callSite : CallSite
  args : List ValueNumber
  /-- The value that holds the stream. -/
  result : ValueNumber
deriving DecidableEq

namespace Creation

/-- The receiver of an instance call, the first argument of a static one. -/
def receiver? (c : Creation) : Option ValueNumber := c.args.head?

/-- An instruction that is a call with a result, made on the line of the site's method name,
    to a method of that name in the class of the site's receiver. -/
def ofInstruction? (site : CreationSite) : Instruction → Option Creation
  | .invoke index (some result) args callSite line =>
    if line = site.nameLine
        ∧ callSite.declaredTarget.declaringClass.binary = site.receiverType.binaryName
        ∧ callSite.declaredTarget.name = site.method.name then
      some { index, callSite, args, result }
    else none
  | _ => none

/-- The first instruction of the body that the site can have been compiled to. -/
def find (b : Body) (site : CreationSite) : Except AnalysisError Creation :=
  match b.instructions.findSome? (ofInstruction? site) with
  | some c => .ok c
  | none =>
    .error
      { kind := .bodyConstruction
        message :=
          "Can't find instruction for creation: " ++ site.text ++ " in " ++ b.method.signature
        location := some site.location }

end Creation
end StreamVerdict
