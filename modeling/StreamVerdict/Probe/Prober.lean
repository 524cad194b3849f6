/-
  Probing a type for its order.

  An object of the type is made, its spliterator is asked, or else the spliterator of the
  stream that its creation method returns, and both are given back again.  What the type
  lacks is a property of the program; that it cannot be loaded, or any other breakdown, is
  fatal.
-/
import StreamVerdict.Jvm.TypeRef
import StreamVerdict.Probe.Session

namespace StreamVerdict

/-- A way to make an object. -/
inductive Strategy where
  /-- By the constructor without arguments. -/
  | zeroArg
  /-- By allocation without a constructor. -/
  | bypass
deriving DecidableEq

namespace Strategy

def name : Strategy → String
  | zeroArg => "zero-arg"
  | bypass => "bypass"

/-- The constructor is tried first. -/
def standard : List Strategy := [zeroArg, bypass]

def attempt (st : Strategy) (s : Session) (type : String) : Except ProbeError Nat × Session :=
  match st with
  | zeroArg => s.construct type
  | bypass => s.allocate type

end Strategy

namespace Prober

/-- The outcome of a probe, and the session afterwards. -/
abbrev Result (α : Type) := Except (Failure OrderingError) α × Session

/-- Makes an object by the first strategy that can. -/
def instantiate (type : String) : List Strategy → Session → Result Nat
  | [], s => (.error (.precondition (.nonInstantiable type)), s)
  | st :: rest, s =>
    match st.attempt s type with
    | (.ok n, s) => (.ok n, s)
    | (.error (.constructionFailed _ _), s) => instantiate type rest s
    | (.error e, s) => (.error (.fatal e.toAnalysisError), s)

/-- What an error of a method call or of a stream means. -/
def extractionFailure (type : String) : ProbeError → Failure OrderingError
  | .invocationFailed _ _ _ => .precondition (.cannotExtract type)
  | e => .fatal e.toAnalysisError

/-- The characteristics of a stream, which is closed afterwards. -/
def extractStream (type : String) (stream : Nat) (s : Session) : Result Characteristics :=
  match s.streamSpliterator stream with
  | (.ok c, s) => (.ok c, s.close stream)
  | (.error (.noSpliterator _), s) => (.error (.precondition (.cannotExtract type)), s.close stream)
  | (.error e, s) => (.error (extractionFailure type e), s.close stream)

/-- The characteristics of an object, or of the stream that its creation method returns. -/
def extract (type : String) (object : Nat) (method : String) (s : Session) :
    Result Characteristics :=
  match s.spliterator object with
  | (some c, s) => (.ok c, s)
  | (none, s) =>
    match s.invoke object method with
    | (.ok (.stream n), s) => extractStream type n s
    | (.ok _, s) => (.error (.precondition (.cannotExtract type)), s)
    | (.error e, s) => (.error (extractionFailure type e), s)

/-- The characteristics of the streams that `method` creates from an object of the type.  The
    object is released afterwards. -/
def probe (strategies : List Strategy) (method : String) (t : TypeRef) (s : Session) :
    Result Characteristics :=
  let type := t.binary
  if t.name.isPrimitive || t.name.isArray then (.error (.precondition (.nonIterable type)), s)
  else
    match s.load type with
    | (.error e, s) => (.error (.fatal e.toAnalysisError), s)
    | (.ok d, s) =>
      if d.kind.isInstantiable = false then (.error (.precondition (.nonInstantiable type)), s)
      else
        match instantiate d.binaryName strategies s with
        | (.error e, s) => (.error e, s)
        | (.ok n, s) =>
          let (r, s) := extract type n method s
          (r, s.release n)

end Prober
end StreamVerdict
