/-
  Reading anchors, tags and directives of YAML texts.

  A tag is a handle and a suffix, and directives give meanings to handles.  Octets that are
  written with a percent sign stand for the character of the same number.  The character with
  number zero ends a suffix or a meaning, whatever is written after it.
-/
import StreamVerdict.Data.Text
import StreamVerdict.Yaml.Place
import StreamVerdict.Yaml.Token

namespace StreamVerdict
namespace Yaml

/-! ### Anchors -/

/-- The name of an anchor, and what follows it. -/
def anchorName? (ps : Input) : Option (List Char × Input) :=
  let (name, rest) := ps.takeChars isWordChar
  let isEnd := rest.startsBlank ||
    rest.startsWith fun c => c ∈ ['?', ':', ',', ']', '\x7d', '%', '@', '\x60']
  if name ≠ [] ∧ isEnd then some (name, rest) else none

/-! ### Tags -/

/-- Characters of tags; some are allowed only between angle brackets. -/
def isTagChar (isVerbatim : Bool) (c : Char) : Bool :=
  isWordChar c || c ∈ [';', '/', '?', ':', '@', '&', '=', '+', '$', '.', '!', '~', '*', '\x27', '(',
    ')'] || (isVerbatim && c ∈ [',', '[', ']'])

/-- How many octets follow the first octet of a character. -/
def octetsAfter? (octet : Nat) : Option Nat :=
  if octet < 0x80 then some 0
  else if octet / 0x20 = 0x06 then some 1
  else if octet / 0x10 = 0x0E then some 2
  else if octet / 0x08 = 0x1E then some 3
  else none

/-- The characters of a tag after those of `acc`, which stand last first, and what follows them.
    So many octets are `pending` that belong to the last character. -/
def tagRest? (isVerbatim : Bool) (pending : Nat) (acc : List Char) :
    Input → Option (List Char × Input)
  | [] => if pending = 0 then some (acc.reverse, []) else none
  | p :: ps =>
    if p.char = '%' then
      match ps with
      | a :: b :: rest =>
        match Text.numeral? 16 [a.char, b.char] with
        | none => none
        | some octet =>
          match if pending = 0 then octetsAfter? octet
              else if octet / 0x40 = 0x02 then some (pending - 1) else none with
          | none => none
          | some pending => tagRest? isVerbatim pending (Char.ofNat octet :: acc) rest
      | _ => none
    else if pending ≠ 0 then none
    else if isTagChar isVerbatim p.char then tagRest? isVerbatim 0 (p.char :: acc) ps
    else some (acc.reverse, p :: ps)

/-- What the characters of a tag say: those before the first with number zero. -/
def beforeZero (cs : List Char) : List Char := cs.takeWhile fun c => c ≠ '\x00'

/-- What the characters of a tag say, of which at least one is written. -/
def tagChars? (isVerbatim : Bool) (ps : Input) : Option (List Char × Input) := do
  let (cs, rest) ← tagRest? isVerbatim 0 [] ps
  if cs = [] then none else return (beforeZero cs, rest)

/-- A tag after its exclamation mark: handle, suffix, and what follows them. -/
def tagParts? (ps : Input) : Option (List Char × List Char × Input) :=
  if ps.startsWith (· = '<') then do
    let (suffix, rest) ← tagChars? true (ps.drop 1)
    if rest.startsWith (· = '>') then return ([], suffix, rest.drop 1) else none
  else
    let (name, rest) := ps.takeChars isWordChar
    if rest.startsWith (· = '!') then do
      let (suffix, rest) ← tagChars? false (rest.drop 1)
      return ('!' :: name ++ ['!'], suffix, rest)
    else do
      let (cs, rest) ← tagRest? false 0 name.reverse rest
      let suffix := beforeZero cs
      return if suffix = [] then ([], ['!'], rest) else (['!'], suffix, rest)

/-- The token of a tag after its exclamation mark, and what follows it. -/
def tag? (inFlow : Bool) (ps : Input) : Option (Token × Input) := do
  let (handle, suffix, rest) ← tagParts? ps
  if rest.startsBlank || (inFlow && rest.startsWith (· = ',')) then
    return (.tag handle suffix, rest)
  else none

/-! ### Directives -/

/-- A number of up to nine digits, and what follows it. -/
def versionNumber? (ps : Input) : Option (Nat × Input) :=
  let (ds, rest) := ps.takeChars Char.isDigit
  if ds ≠ [] ∧ ds.length ≤ 9 then some (Nat.ofDigitChars 10 ds 0, rest) else none

def versionDirective? (ps : Input) : Option (Token × Input) := do
  let (major, rest) ← versionNumber? ps
  if rest.startsWith (· = '.') then
    let (minor, rest) ← versionNumber? (rest.drop 1)
    return (.version major minor, rest)
  else none

def handleDirective? (ps : Input) : Option (Token × Input) := do
  if ps.startsWith (· = '!') then
    let (name, rest) := Input.takeChars isWordChar (ps.drop 1)
    let isClosed : Bool := rest.startsWith (· = '!')
    let rest : Input := if isClosed then rest.drop 1 else rest
    if (isClosed || name = []) && rest.startsWith isBlank then
      let (meaning, rest) ← tagChars? true (rest.takeChars isBlank).2
      if rest.startsBlank then
        return (.handle ('!' :: name ++ (if isClosed then ['!'] else [])) meaning, rest)
      else none
    else none
  else none

/-- The token of a directive after its percent sign, and what follows its line. -/
def directive? (ps : Input) : Option (Token × Input) := do
  let (name, rest) := ps.takeChars isWordChar
  if rest.startsBlank then
    let body := (rest.takeChars isBlank).2
    let (t, rest) ← if name = "YAML".toList then versionDirective? body
      else if name = "TAG".toList then handleDirective? body
      else none
    return (t, ← rest.afterLine?)
  else none

end Yaml
end StreamVerdict
