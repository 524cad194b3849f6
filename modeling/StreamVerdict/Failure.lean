/-
  Failures of an analysis.

  An analysis error is fatal: it ends the analysis of a site.  A failure in general is
  either fatal or a property of the analysed program, which becomes a finding.
-/
import StreamVerdict.Source.Location

namespace StreamVerdict

/-- An error that has a label for programs and a message for people. -/
class Explained (ε : Type) where
  label : ε → String
  message : ε → String

/-- The stage in which an analysis failed. -/
inductive ErrorKind where
  | classHierarchy
  | bodyConstruction
  | typeResolution
  | probe
  | callGraph
  | cancelled
  | solverSetup
  | solverTimeout
  | maxFindings
  | settings
  | internal
deriving DecidableEq

namespace ErrorKind

def all : List ErrorKind :=
  [classHierarchy, bodyConstruction, typeResolution, probe, callGraph, cancelled, solverSetup,
    solverTimeout, maxFindings, settings, internal]

def name : ErrorKind → String
  | classHierarchy => "class_hierarchy"
  | bodyConstruction => "ir_construction"
  | typeResolution => "type_resolution"
  | probe => "probe"
  | callGraph => "call_graph"
  | cancelled => "cancelled"
  | solverSetup => "solver_setup"
  | solverTimeout => "solver_timeout"
  | maxFindings => "max_findings"
  | settings => "config"
  | internal => "internal"

def ofName? (s : String) : Option ErrorKind := all.find? fun k => k.name = s

end ErrorKind

/-- A fatal error, with the text of the error that caused it. -/
structure AnalysisError where
  kind : ErrorKind
  message : String
  location : Option SourceLocation := none
  cause : Option String := none
deriving DecidableEq

namespace AnalysisError

/-- An error that passes on the text of its cause. -/
def ofCause (kind : ErrorKind) (text : String) : AnalysisError :=
  { kind, message := text, cause := some text }

def isCancellation (e : AnalysisError) : Bool := e.kind = .cancelled

def text (e : AnalysisError) : String :=
  "[" ++ e.kind.name ++ "] " ++ e.message ++
    match e.location with
    | none => ""
    | some l => " at " ++ l.text

end AnalysisError

/-- A property of the analysed program, or a fatal error. -/
inductive Failure (ε : Type) where
  | precondition (e : ε)
  | fatal (e : AnalysisError)
deriving DecidableEq

namespace Failure

variable {ε : Type}

def isFatal : Failure ε → Bool
  | precondition _ => false
  | fatal _ => true

def precondition? : Failure ε → Option ε
  | precondition e => some e
  | fatal _ => none

def text (textOf : ε → String) : Failure ε → String
  | precondition e => textOf e
  | fatal e => e.text

end Failure
end StreamVerdict
