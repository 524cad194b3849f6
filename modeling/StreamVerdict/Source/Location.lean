/-
  Places in source files.
-/

namespace StreamVerdict

/-- A range of a source file, from a line and column to a line and column. -/
structure Span where
  startLine : UInt32
  startCol : UInt32
  endLine : UInt32
  endCol : UInt32
deriving DecidableEq

namespace Span

def zero : Span := ⟨0, 0, 0, 0⟩

/-- A range within one line. -/
def onLine (line startCol endCol : UInt32) : Span := ⟨line, startCol, line, endCol⟩

def containsLine (s : Span) (line : UInt32) : Bool := s.startLine ≤ line ∧ line ≤ s.endLine

/-- Containment by lines; columns do not count. -/
def contains (s t : Span) : Bool := s.startLine ≤ t.startLine ∧ t.endLine ≤ s.endLine

end Span

/-- A range of a named source file. -/
structure SourceLocation where
  filePath : String
  span : Span
deriving DecidableEq

def SourceLocation.text (l : SourceLocation) : String :=
  l.filePath ++ ":" ++ toString l.span.startLine.toNat ++ ":" ++ toString l.span.startCol.toNat

end StreamVerdict
