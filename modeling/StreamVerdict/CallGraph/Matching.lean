/-
  Which objects were created through a given call.

  An object was created through a call if the call is in a call string of a node that
  allocated it.  If none of those call strings reaches the application, they are too short
  to tell.
-/
import StreamVerdict.CallGraph.Built
import StreamVerdict.Failure

namespace StreamVerdict

/-- Why an object could not be matched. -/
inductive MatchError where
  /-- No call string of the object reaches the application. -/
  | insufficientDepth (object : String) (depth : Nat)
deriving DecidableEq

def MatchError.message : MatchError → String
  | insufficientDepth object depth =>
    "No application code in the call strings of " ++ object ++
      " at context depth " ++ toString depth

instance : Explained MatchError := ⟨fun _ => "InsufficientContextDepth", MatchError.message⟩

namespace BuiltGraph

/-- The frames of the call strings under which an object was allocated. -/
def creationFrames (g : BuiltGraph) (i : Instance) : List Frame :=
  (g.creationNodes i).flatMap fun n =>
    match g.graph.node? n with
    | some x => x.context.callString.frames
    | none => []

/-- The object was created through `site` in the method `enclosing`.  Objects from outside of
    the program never are. -/
def createdThrough (g : BuiltGraph) (depth : Nat) (i : Instance) (site : CallSite)
    (enclosing : MethodRef) : Except MatchError Bool :=
  if i.newSite?.isNone then .ok false
  else
    let frames := g.creationFrames i
    if frames.any fun f => f.callSite = site ∧ f.method = enclosing then .ok true
    else if frames.any Frame.isApplication then .ok false
    else .error (.insufficientDepth i.text depth)

end BuiltGraph
end StreamVerdict
