/-
  Reading YAML scalars that are blocks of lines.

  The block ends with the first line that is indented less than its text.  How much that is
  may be given, and else is found from the first line that is not empty.  In a folded block
  single line breaks between lines that begin with no blank are read as spaces.  What becomes
  of the line breaks at the end is given, too.
-/
import StreamVerdict.Yaml.Scalar

namespace StreamVerdict
namespace Yaml

/-- What becomes of the line breaks at the end of a block. -/
inductive Chomping where
  /-- None is kept. -/
  | strip
  /-- The first is kept. -/
  | clip
  /-- All are kept. -/
  | keep
deriving DecidableEq

/-- What is said about a block before its first line.  An indentation of zero is not given. -/
structure BlockHeader where
  chomping : Chomping
  indentation : Nat
deriving DecidableEq

namespace BlockHeader

def chomping? (c : Char) : Option Chomping := [('+', .keep), ('-', .strip)].lookup c

/-- How much more the text is indented, and the rest; zero may not be given. -/
def readIndentation (ps : Input) : Option (Nat × Input) :=
  match ps with
  | p :: rest =>
    if p.char.isDigit then
      if p.char = '0' then none else some (p.char.toNat - '0'.toNat, rest)
    else some (0, ps)
  | [] => some (0, [])

/-- The end of lines that is asked for, and the rest. -/
def readChomping (ps : Input) : Chomping × Input :=
  match ps with
  | p :: rest =>
    match chomping? p.char with
    | some c => (c, rest)
    | none => (.clip, ps)
  | [] => (.clip, [])

/-- Reads what is said in either order, and the rest of the line. -/
def read? (ps : Input) : Option (BlockHeader × Input) := do
  let (chomping, ps) := readChomping ps
  let (indentation, ps) ← readIndentation ps
  let (chomping, ps) := if chomping = .clip then readChomping ps else (chomping, ps)
  return (⟨chomping, indentation⟩, ← ps.afterLine?)

end BlockHeader

/-- Empty lines that were passed. -/
structure EmptyLines where
  /-- Their line breaks, last first. -/
  breaks : List Char
  /-- The deepest indentation among them and of the line after them. -/
  deepest : Nat
  rest : Input

/-- Passes empty lines and the indentation of the next one, up to `indent` blanks if that is not
    zero.  No tab may be in it. -/
def emptyLines (indent : Nat) (breaks : List Char) (deepest : Nat) : Input → Option EmptyLines
  | [] => some ⟨breaks, deepest, []⟩
  | p :: ps =>
    let isWithin : Bool := indent = 0 ∨ p.column < indent
    if isWithin ∧ p.char = ' ' then emptyLines indent breaks (max deepest (p.column + 1)) ps
    else if isWithin ∧ p.char = '\t' then none
    else if isBreak p.char then emptyLines indent (p.char :: breaks) deepest ps
    else some ⟨breaks, deepest, p :: ps⟩

/-- How far a block was read. -/
structure BlockText where
  /-- Its characters, last first. -/
  acc : List Char
  /-- The break that ended the last line. -/
  lineBreak : Option Char
  /-- The breaks of the empty lines after it, last first. -/
  emptyBreaks : List Char
  /-- The last line begins with a blank. -/
  isIndented : Bool
  rest : Input

namespace BlockText

/-- One more line.  It is known that one comes. -/
def line? (isLiteral : Bool) (indent : Nat) (t : BlockText) : Option BlockText := do
  let isIndented := t.rest.startsWith isBlank
  let isFolded : Bool := !isLiteral ∧ t.lineBreak = some '\n' ∧ !t.isIndented ∧ !isIndented
  let joined :=
    if isFolded then (if t.emptyBreaks.isEmpty then ' ' :: t.acc else t.acc)
    else t.lineBreak.toList ++ t.acc
  let (chars, rest) := t.rest.takeChars fun c => !isBreak c
  let e ← emptyLines indent [] 0 (rest.drop 1)
  return { acc := chars.reverse ++ (t.emptyBreaks ++ joined)
           lineBreak := rest.head?.map Place.char
           emptyBreaks := e.breaks
           isIndented
           rest := e.rest }

/-- The remaining lines, at most `fuel`. -/
def lines? (isLiteral : Bool) (indent : Nat) (fuel : Nat) (t : BlockText) : Option BlockText :=
  match fuel with
  | 0 => none
  | fuel + 1 =>
    if t.rest.head?.any fun p => p.column = indent then
      match t.line? isLiteral indent with
      | some t => lines? isLiteral indent fuel t
      | none => none
    else some t

/-- The text with what becomes of the line breaks at its end. -/
def chomp (c : Chomping) (t : BlockText) : Scanned :=
  match c with
  | .strip => scanned t.acc t.rest
  | .clip => scanned (t.lineBreak.toList ++ t.acc) t.rest
  | .keep => scanned (t.emptyBreaks ++ (t.lineBreak.toList ++ t.acc)) t.rest

end BlockText

/-- Reads a block of lines after its indicator.  Its text stands at the margin or further
    right. -/
def blockScalar? (isLiteral : Bool) (margin : Nat) (ps : Input) : Option Scanned := do
  let (header, ps) ← BlockHeader.read? ps
  let given := if header.indentation = 0 then 0 else (margin - 1) + header.indentation
  let e ← emptyLines given [] 0 ps
  let indent := if given = 0 then max (max e.deepest margin) 1 else given
  let t ← BlockText.lines? isLiteral indent (ps.length + 1)
    { acc := [], lineBreak := none, emptyBreaks := e.breaks, isIndented := false, rest := e.rest }
  return t.chomp header.chomping

end Yaml
end StreamVerdict
