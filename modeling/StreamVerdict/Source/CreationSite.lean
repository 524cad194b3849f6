/-
  Expressions that create a stream.
-/
import StreamVerdict.Source.Binding

namespace StreamVerdict

/-- An expression that creates a stream, such as `list.stream()`. -/
structure CreationSite where
  project : ProjectId
  filePath : String
  /-- The expression as written. -/
  text : String
  /-- The method that creates the stream. -/
  method : MethodBinding
  /-- The type of the receiver expression; unqualified calls have none. -/
  expressionType : Option TypeBinding
  /-- The type of the whole expression. -/
  resultType : TypeBinding
  /-- The line of the invoked method's name. -/
  nameLine : UInt32
  span : Span
  /-- The method that contains the expression. -/
  enclosing : MethodDeclaration
deriving DecidableEq

namespace CreationSite

/-- The type of the receiver expression, or the class that declares the invoked method. -/
def receiverType (s : CreationSite) : TypeBinding :=
  s.expressionType.getD s.method.declaringType

def isStatic (s : CreationSite) : Bool := s.method.isStatic

def location (s : CreationSite) : SourceLocation := ⟨s.filePath, s.span⟩

end CreationSite
end StreamVerdict
