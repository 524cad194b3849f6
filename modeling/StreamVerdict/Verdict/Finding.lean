/-
  Findings about a stream.
-/
import StreamVerdict.CallGraph.Matching
import StreamVerdict.Failure
import StreamVerdict.Ordering.SourceOrder
import StreamVerdict.Source.CreationSite

namespace StreamVerdict

/-- How bad a finding is, the least bad first. -/
inductive Severity where
  | ok
  | info
  | warning
  | error
  | fatal
deriving DecidableEq

namespace Severity

def all : List Severity := [ok, info, warning, error, fatal]

def name : Severity → String
  | ok => "OK"
  | info => "INFO"
  | warning => "WARNING"
  | error => "ERROR"
  | fatal => "FATAL"

def rank : Severity → Nat
  | ok => 0
  | info => 1
  | warning => 2
  | error => 3
  | fatal => 4

instance : LE Severity := ⟨fun a b => a.rank ≤ b.rank⟩

instance (a b : Severity) : Decidable (a ≤ b) := inferInstanceAs (Decidable (a.rank ≤ b.rank))

/-- The worse of two. -/
def worse (a b : Severity) : Severity := if a ≤ b then b else a

end Severity

/-- What was found. -/
inductive FindingKind where
  | inconsistentSourceOrdering
  | nonIterableSource
  | nonInstantiableSource
  | nonDeterminableSourceOrdering
  | noApplicationCode
  | infrastructureFailure
deriving DecidableEq

namespace FindingKind

def all : List FindingKind :=
  [inconsistentSourceOrdering, nonIterableSource, nonInstantiableSource,
    nonDeterminableSourceOrdering, noApplicationCode, infrastructureFailure]

/-- The number under which users know the kind. -/
def code : FindingKind → Nat
  | inconsistentSourceOrdering => 1
  | nonIterableSource => 2
  | nonInstantiableSource => 3
  | nonDeterminableSourceOrdering => 4
  | noApplicationCode => 5
  | infrastructureFailure => 6

def ofCode? (n : Nat) : Option FindingKind := all.find? fun k => k.code = n

def title : FindingKind → String
  | inconsistentSourceOrdering => "InconsistentPossibleStreamSourceOrdering"
  | nonIterableSource => "NonIterablePossibleStreamSource"
  | nonInstantiableSource => "NonInstantiablePossibleStreamSource"
  | nonDeterminableSourceOrdering => "NonDeterminableStreamSourceOrdering"
  | noApplicationCode => "NoApplicationCodeInCallStrings"
  | infrastructureFailure => "InfrastructureFailure"

/-- The name in exchanged data. -/
def name : FindingKind → String
  | inconsistentSourceOrdering => "INCONSISTENT_POSSIBLE_STREAM_SOURCE_ORDERING"
  | nonIterableSource => "NON_ITERABLE_POSSIBLE_STREAM_SOURCE"
  | nonInstantiableSource => "NON_INSTANTIABLE_POSSIBLE_STREAM_SOURCE"
  | nonDeterminableSourceOrdering => "NON_DETERMINABLE_STREAM_SOURCE_ORDERING"
  | noApplicationCode => "NO_APPLICATION_CODE_IN_CALL_STRINGS"
  | infrastructureFailure => "INFRASTRUCTURE_FAILURE"

def text (k : FindingKind) : String := k.title ++ " (" ++ toString k.code ++ ")"

end FindingKind

/-- Something that was found about a stream. -/
structure Finding where
  kind : FindingKind
  severity : Severity
  message : String
  location : SourceLocation
deriving DecidableEq

namespace Finding

def code (f : Finding) : Nat := f.kind.code

def text (f : Finding) : String :=
  "[" ++ f.severity.name ++ "] " ++ f.message ++ " at " ++ f.location.text

def error (kind : FindingKind) (message : String) (location : SourceLocation) : Finding :=
  ⟨kind, .error, message, location⟩

/-- The order of the stream could not be determined. -/
def ofOrdering (site : CreationSite) (e : OrderingError) : Finding :=
  match e with
  | .inconsistent _ =>
    error .inconsistentSourceOrdering
      ("Stream: " ++ site.text ++ " has inconsistent possible source orderings.") site.location
  | .nonIterable _ =>
    error .nonIterableSource
      ("Stream: " ++ site.text ++ " has a non-iterable possible source.") site.location
  | .nonInstantiable t =>
    error .nonInstantiableSource
      ("Stream: " ++ site.text ++ " has a non-instantiable possible source with type: " ++ t ++ ".")
      site.location
  | .cannotExtract t =>
    error .nonDeterminableSourceOrdering
      ("Cannot extract spliterator from type: " ++ t ++ " for stream: " ++ site.text ++ ".")
      site.location
  | .noTypeInformation =>
    error .nonDeterminableSourceOrdering
      ("Stream: " ++ site.text ++ " has no static type information for its source.") site.location

/-- Objects of the stream could not be matched with its creation. -/
def ofMatch (site : CreationSite) : MatchError → Finding
  | .insufficientDepth _ depth =>
    error .noApplicationCode
      ("Stream: " ++ site.text ++
        " has no application code in the call strings of its instances at depth " ++
        toString depth ++ ".")
      site.location

/-- The analysis of the stream failed. -/
def ofError (site : CreationSite) (e : AnalysisError) : Finding :=
  { kind := .infrastructureFailure
    severity := .fatal
    message := "Could not analyze stream: " ++ site.text ++ ": " ++ e.text
    location := e.location.getD site.location }

end Finding

/-- The findings about a stream, in the order in which they were made. -/
structure Status where
  findings : List Finding
deriving DecidableEq

namespace Status

def empty : Status := ⟨[]⟩

def add (s : Status) (f : Finding) : Status := ⟨s.findings ++ [f]⟩

/-- How bad the worst finding is. -/
def severity (s : Status) : Severity :=
  s.findings.foldl (fun worst f => worst.worse f.severity) .ok

def isOk (s : Status) : Bool := s.severity = .ok

def hasError (s : Status) : Bool := Severity.error ≤ s.severity

def count (s : Status) (k : FindingKind) : Nat := s.findings.countP fun f => f.kind = k

end Status
end StreamVerdict
