/-
  The characters of a YAML text with the places where they stand.

  Layout is part of the grammar of YAML, so every character carries its line, its column and
  its distance from the start.  Most ways to end a line are read as one line break; the two
  separators of Unicode end a line as well and stay what they are.
-/

namespace StreamVerdict
namespace Yaml

/-- A character and where it stands; all is counted from zero. -/
structure Place where
  char : Char
  line : Nat
  column : Nat
  index : Nat
deriving DecidableEq

/-- The rest of a text. -/
abbrev Input := List Place

/-- Characters that may stand in a text. -/
def isPrintable (c : Char) : Bool :=
  let n := c.toNat
  n = 0x9 ∨ n = 0xA ∨ n = 0xD ∨ (0x20 ≤ n ∧ n ≤ 0x7E) ∨ n = 0x85 ∨ (0xA0 ≤ n ∧ n ≤ 0xD7FF)
    ∨ (0xE000 ≤ n ∧ n ≤ 0xFFFD) ∨ 0x10000 ≤ n

/-- Characters that end a line. -/
def isBreak (c : Char) : Bool := c = '\n' ∨ c = '\u2028' ∨ c = '\u2029'

/-- Characters between the words of a line. -/
def isBlank (c : Char) : Bool := c = ' ' ∨ c = '\t'

/-- Characters of names and directives. -/
def isWordChar (c : Char) : Bool := c.isAlphanum ∨ c = '_' ∨ c = '-'

namespace Input

/-- Places characters, after those of `acc`, which stand last first. -/
def place (acc : Input) (line column index : Nat) : List Char → Input
  | [] => acc.reverse
  | '\r' :: '\n' :: cs => place (⟨'\n', line, column, index⟩ :: acc) (line + 1) 0 (index + 2) cs
  | c :: cs =>
    let c := if c = '\r' ∨ c = '\u0085' then '\n' else c
    let acc := ⟨c, line, column, index⟩ :: acc
    if isBreak c then place acc (line + 1) 0 (index + 1) cs
    else place acc line (column + 1) (index + 1) cs

/-- A text with the place of every character. -/
def ofText? (s : String) : Option Input :=
  let cs := s.toList
  if cs.all isPrintable then some (place [] 0 0 0 cs) else none

/-- The column of what comes next; the end counts as the start of a line. -/
def column (ps : Input) : Nat := (ps.head?.map Place.column).getD 0

/-- The next character is such a one. -/
def startsWith (f : Char → Bool) (ps : Input) : Bool := ps.head?.any fun p => f p.char

/-- The line ends here. -/
def startsBreak (ps : Input) : Bool := ps.isEmpty || ps.startsWith isBreak

/-- The word ends here. -/
def startsBlank (ps : Input) : Bool := ps.isEmpty || ps.startsWith fun c => isBlank c || isBreak c

/-- The characters that come next as long as they are such ones, and what follows them. -/
def takeChars (f : Char → Bool) (ps : Input) : List Char × Input :=
  ((ps.takeWhile fun p => f p.char).map Place.char, ps.dropWhile fun p => f p.char)

/-- What comes after three times `c` at the start of a line: such a line bounds a document. -/
def afterMarker? (c : Char) : Input → Option Input
  | p :: q :: r :: rest =>
    if p.column = 0 ∧ p.char = c ∧ q.char = c ∧ r.char = c ∧ startsBlank rest then some rest
    else none
  | _ => none

/-- A document is bounded here. -/
def startsMarker (ps : Input) : Bool :=
  (afterMarker? '-' ps).isSome ∨ (afterMarker? '.' ps).isSome

/-- What comes after the blanks and the comment at the end of a line, if nothing else does. -/
def afterLine? (ps : Input) : Option Input :=
  let ps := (ps.takeChars isBlank).2
  let ps := if ps.startsWith (· = '#') then (ps.takeChars fun c => !isBreak c).2 else ps
  if ps.startsBreak then some (ps.drop 1) else none

end Input
end Yaml
end StreamVerdict
