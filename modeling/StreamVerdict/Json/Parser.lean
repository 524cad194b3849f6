/-
  Reading JSON values from their words.

  The words are taken one after the other.  What is kept between two words is which arrays
  and objects are open, innermost first, and what may come next.  A value inside of more than
  `maxDepth` arrays and objects cannot be read, but has to be well formed.
-/
import StreamVerdict.Json.Token
import StreamVerdict.Json.Value

namespace StreamVerdict
namespace Json

/-- How many arrays and objects can be open around what is read. -/
def maxDepth : Nat := 127

/-- The members of an object as far as it was read. -/
structure Members where
  /-- The members, last first. -/
  members : List (String × Json)
  /-- No name is written with escapes. -/
  isPlain : Bool
  /-- Every name is a text. -/
  isReadable : Bool

namespace Members

def empty : Members := ⟨[], true, true⟩

def insert (ms : Members) (name : String) (v : Json) : Members :=
  { ms with members := (name, v) :: ms.members }

/-- The object with these members. -/
def toJson (ms : Members) : Json :=
  if ms.isReadable then
    if ms.isPlain then .obj ms.members.reverse else .objEscaped ms.members.reverse
  else .unreadable

end Members

/-- An array or an object that is not closed yet. -/
inductive Open where
  /-- An array with its items, last first. -/
  | array (items : List Json)
  | object (members : Members)
  /-- An object whose last member still lacks its value. -/
  | member (name : String) (members : Members)

/-- What comes next. -/
inductive Awaited where
  | value
  /-- A value, or the end of an array without items. -/
  | valueOrEnd
  | name
  /-- A name, or the end of an object without members. -/
  | nameOrEnd
  | colon
  /-- After a value: a comma, or the end of what is open. -/
  | commaOrEnd
  /-- All is read. -/
  | nothing (v : Json)

/-- How far a text was read. -/
structure Reading where
  /-- What is open, innermost first. -/
  opened : List Open
  /-- How much is open. -/
  depth : Nat
  awaited : Awaited

namespace Reading

def start : Reading := ⟨[], 0, .value⟩

/-- After a whole value. -/
def accept (r : Reading) (v : Json) : Option Reading :=
  match r.opened with
  | [] => some { r with awaited := .nothing v }
  | .array items :: outer =>
    some { r with opened := .array (v :: items) :: outer, awaited := .commaOrEnd }
  | .member name ms :: outer =>
    some { r with opened := .object (ms.insert name v) :: outer, awaited := .commaOrEnd }
  | .object _ :: _ => none

/-- After the end of the array or object that is open innermost. -/
def close (r : Reading) (outer : List Open) (v : Json) : Option Reading :=
  accept { r with opened := outer, depth := r.depth - 1 }
    (if r.depth ≤ maxDepth then v else .unreadable)

/-- After a word that begins a value or is one. -/
def value (r : Reading) : Token → Option Reading
  | .null => r.accept .null
  | .bool b => r.accept (.bool b)
  | .nat n => r.accept (.nat n)
  | .real s => r.accept (.real s)
  | .text s _ => r.accept (.text s)
  | .vast => r.accept .unreadable
  | .unpaired => r.accept .unreadable
  | .openArray => some ⟨.array [] :: r.opened, r.depth + 1, .valueOrEnd⟩
  | .openObject => some ⟨.object .empty :: r.opened, r.depth + 1, .nameOrEnd⟩
  | _ => none

/-- After the name of a member. -/
def name (r : Reading) (t : Token) : Option Reading :=
  match r.opened, t with
  | .object ms :: outer, .text s isPlain =>
    some { r with
      opened := .member s { ms with isPlain := ms.isPlain && isPlain } :: outer
      awaited := .colon }
  | .object ms :: outer, .unpaired =>
    some { r with opened := .member "" { ms with isReadable := false } :: outer, awaited := .colon }
  | _, _ => none

/-- After one more word. -/
def step (r : Reading) (t : Token) : Option Reading :=
  match r.awaited, t, r.opened with
  | .valueOrEnd, .closeArray, .array items :: outer => r.close outer (.arr items.reverse)
  | .valueOrEnd, t, _ => r.value t
  | .value, t, _ => r.value t
  | .nameOrEnd, .closeObject, .object ms :: outer => r.close outer ms.toJson
  | .nameOrEnd, t, _ => r.name t
  | .name, t, _ => r.name t
  | .colon, .colon, _ => some { r with awaited := .value }
  | .commaOrEnd, .closeArray, .array items :: outer => r.close outer (.arr items.reverse)
  | .commaOrEnd, .closeObject, .object ms :: outer => r.close outer ms.toJson
  | .commaOrEnd, .comma, .array _ :: _ => some { r with awaited := .value }
  | .commaOrEnd, .comma, .object _ :: _ => some { r with awaited := .name }
  | _, _, _ => none

/-- The value, if all is read. -/
def result? (r : Reading) : Option Json :=
  match r.awaited with
  | .nothing v => some v
  | _ => none

end Reading

/-- The value that words write, if they write exactly one. -/
def ofTokens? (ts : List Token) : Option Json :=
  (ts.foldlM Reading.step Reading.start).bind Reading.result?

/-- The value that a text writes, if it writes exactly one. -/
def parse? (s : String) : Option Json := (Token.lex s.toList).bind ofTokens?

end Json
end StreamVerdict
