/-
  Reading YAML scalars that are plain or in quotes.

  A scalar may go on over several lines: a single line break between its words is read as a
  space, further ones are kept.  A plain scalar ends where a comment, a value or, in a flow
  mapping, the next entry begins, and where the margin ends.
-/
import StreamVerdict.Data.Text
import StreamVerdict.Yaml.Place

namespace StreamVerdict
namespace Yaml

/-- What stands between the last word of a scalar and the next. -/
inductive Gap where
  | none
  /-- Blanks within a line, last first. -/
  | blanks (cs : List Char)
  /-- A line break, and those after it, last first. -/
  | breaks (first : Char) (more : List Char)
  /-- A line break that was escaped, and those after it, last first. -/
  | joined (more : List Char)
deriving DecidableEq

namespace Gap

/-- One more blank; blanks at the start of a line do not count. -/
def blank (c : Char) : Gap → Gap
  | none => blanks [c]
  | blanks cs => blanks (c :: cs)
  | g => g

/-- One more line break. -/
def newline (c : Char) : Gap → Gap
  | breaks first more => breaks first (c :: more)
  | joined more => joined (c :: more)
  | _ => breaks c []

/-- The gap goes on into a new line. -/
def isBroken : Gap → Bool
  | breaks _ _ => true
  | joined _ => true
  | _ => false

/-- What is read for a gap, put before what was read until then, last first. -/
def onto (acc : List Char) : Gap → List Char
  | none => acc
  | blanks cs => cs ++ acc
  | breaks first more =>
    if first = '\n' then (if more.isEmpty then ' ' :: acc else more ++ acc)
    else more ++ first :: acc
  | joined more => more ++ acc

end Gap

/-- A text that was read, and the rest. -/
structure Scanned where
  text : String
  rest : Input

/-- A scalar from its characters, last first. -/
def scanned (acc : List Char) (rest : Input) : Scanned := ⟨String.ofList acc.reverse, rest⟩

/-! ### Plain scalars -/

def isFlowIndicator (c : Char) : Bool := c ∈ [',', '[', ']', '\x7b', '\x7d']

/-- Characters with which a plain scalar cannot begin, unless the next one makes it. -/
def isIndicator (c : Char) : Bool :=
  c ∈ ['-', '?', ':', ',', '[', ']', '\x7b', '\x7d', '#', '&', '*', '!', '|', '>', '\x27', '\x22',
    '%', '@', '\x60']

/-- A plain scalar begins here. -/
def startsPlain (inFlow : Bool) : Input → Bool
  | [] => false
  | p :: rest =>
    if isIndicator p.char then
      !Input.startsBlank rest && (p.char = '-' || (!inFlow && (p.char = '?' || p.char = ':')))
    else !Input.startsBlank (p :: rest)

/-- A plain scalar ends before the character `p`, which comes after a gap: with a comment, with a
    line that is indented too little or bounds a document, before a value, and in a flow mapping
    before the next entry. -/
def endsPlain (inFlow : Bool) (margin : Nat) (gap : Gap) (p : Place) (ps : Input) : Bool :=
  (p.char = '#' && gap ≠ .none)
    || (gap.isBroken && ((!inFlow && p.column < margin) || Input.startsMarker (p :: ps)))
    || (p.char = ':' && ps.startsBlank)
    || (inFlow && isFlowIndicator p.char)

/-- Reads the rest of a plain scalar, and tells whether it ended after a line break.  Later
    lines have to be indented to the margin. -/
def plainRest (inFlow : Bool) (margin : Nat) (acc : List Char) :
    Gap → Input → Option (Scanned × Bool)
  | gap, [] => some (scanned acc [], gap.isBroken)
  | gap, p :: ps =>
    if isBreak p.char then plainRest inFlow margin acc (gap.newline p.char) ps
    else if isBlank p.char then
      if p.char = '\t' ∧ gap.isBroken ∧ p.column < margin then none
      else plainRest inFlow margin acc (gap.blank p.char) ps
    else if endsPlain inFlow margin gap p ps then some (scanned acc (p :: ps), gap.isBroken)
    else if inFlow ∧ p.char = ':' ∧ Input.startsWith (fun c => isFlowIndicator c || c = '?') ps then
      none
    else plainRest inFlow margin (p.char :: gap.onto acc) .none ps

/-! ### Quoted scalars -/

/-- Reads the rest of a single-quoted scalar; a quote is written twice. -/
def singleRest (acc : List Char) : Gap → Input → Option Scanned
  | _, [] => none
  | gap, p :: ps =>
    if Input.startsMarker (p :: ps) then none
    else if isBreak p.char then singleRest acc (gap.newline p.char) ps
    else if isBlank p.char then singleRest acc (gap.blank p.char) ps
    else if p.char = '\x27' then
      match ps with
      | q :: qs =>
        if q.char = '\x27' then singleRest ('\x27' :: gap.onto acc) .none qs
        else some (scanned (gap.onto acc) (q :: qs))
      | [] => some (scanned (gap.onto acc) [])
    else singleRest (p.char :: gap.onto acc) .none ps

/-- What a backslash and one character stand for. -/
def escaped? (c : Char) : Option Char :=
  [ ('0', '\x00'), ('a', '\x07'), ('b', '\x08'), ('t', '\t'), ('\t', '\t'), ('n', '\n'),
    ('v', '\x0b'), ('f', '\x0c'), ('r', '\r'), ('e', '\x1b'), (' ', ' '), ('\x22', '\x22'),
    ('/', '/'), ('\\', '\\'), ('N', '\u0085'), ('_', '\u00a0'), ('L', '\u2028'),
    ('P', '\u2029') ].lookup c

/-- How many hexadecimal digits follow a backslash and this character. -/
def escapeLength? (c : Char) : Option Nat := [('x', 2), ('u', 4), ('U', 8)].lookup c

/-- The character that exactly `n` hexadecimal digits stand for. -/
def escapedCode? (n : Nat) (ps : Input) : Option Char :=
  let ds := (ps.take n).map Place.char
  if ds.length = n then
    (Text.numeral? 16 ds).bind fun code => if code.isValidChar then some (Char.ofNat code) else none
  else none

/-- Reads the rest of a double-quoted scalar, in which a backslash begins an escape. -/
def doubleRest (acc : List Char) (gap : Gap) (ps : Input) : Option Scanned :=
  match ps with
  | [] => none
  | p :: ps =>
    if Input.startsMarker (p :: ps) then none
    else if isBreak p.char then doubleRest acc (gap.newline p.char) ps
    else if isBlank p.char then doubleRest acc (gap.blank p.char) ps
    else if p.char = '\x22' then some (scanned (gap.onto acc) ps)
    else if p.char = '\\' then
      match ps with
      | [] => none
      | q :: qs =>
        if isBreak q.char then doubleRest (gap.onto acc) (.joined []) qs
        else
          match escapeLength? q.char with
          | some n =>
            match escapedCode? n qs with
            | some c => doubleRest (c :: gap.onto acc) .none (qs.drop n)
            | none => none
          | none =>
            match escaped? q.char with
            | some c => doubleRest (c :: gap.onto acc) .none qs
            | none => none
    else doubleRest (p.char :: gap.onto acc) .none ps
termination_by ps.length
decreasing_by all_goals (simp_wf; try omega)

end Yaml
end StreamVerdict
