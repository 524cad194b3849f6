/-
  Reports about a stream.
-/
import StreamVerdict.Verdict.Finding

namespace StreamVerdict

/-- How a stream is evaluated. -/
inductive ExecutionMode where
  | sequential
  | parallel
deriving DecidableEq

namespace ExecutionMode

def all : List ExecutionMode := [sequential, parallel]

def name : ExecutionMode → String
  | sequential => "SEQUENTIAL"
  | parallel => "PARALLEL"

/-- The creating method alone decides: `parallelStream()` creates a parallel stream. -/
def ofCreation (m : MethodBinding) : ExecutionMode :=
  if m.identifier = "parallelStream()" then parallel else sequential

end ExecutionMode

/-- A summary of the analysis of one stream. -/
structure Report where
  creation : String
  filePath : String
  line : UInt32
  enclosingMethod : String
  executionMode : ExecutionMode
  ordering : SourceOrder
  severity : Severity
  transformable : Bool
  /-- The names of the states that the stream may reach. -/
  lifecycle : List String
  findings : List Finding
deriving DecidableEq

end StreamVerdict
