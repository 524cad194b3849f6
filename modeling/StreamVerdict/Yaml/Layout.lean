/-
  Understanding the layout of YAML texts.

  Outside of flow mappings the columns tell what belongs together: a block mapping stands in
  the column of its first key, and ends where something stands further left.  Every node may
  turn out to be a key, namely when a colon follows it on the same line and not too far away.
  Until then the node is a candidate, for which it is remembered where a token for the key has
  to be put in.
-/
import StreamVerdict.Yaml.BlockScalar
import StreamVerdict.Yaml.Tag

namespace StreamVerdict
namespace Yaml

/-- A node that may turn out to be a key. -/
structure Candidate where
  place : Place
  /-- How many tokens come before it. -/
  before : Nat
  /-- It stands where only a key can stand. -/
  isRequired : Bool
deriving DecidableEq

namespace Candidate

/-- How far the colon may be from the start of a key. -/
def maxLength : Nat := 1024

/-- A colon at the given place comes too late. -/
def isStale (c : Candidate) (now : Place) : Bool :=
  c.place.line < now.line ∨ c.place.index + maxLength < now.index

end Candidate

/-- How far the layout of a text is understood. -/
structure Layout where
  rest : Input
  /-- The tokens so far, last first. -/
  tokens : List Token
  /-- How many they are. -/
  count : Nat
  /-- The column after that of the innermost block mapping; zero if there is none. -/
  margin : Nat
  /-- The margins around it, innermost first. -/
  outerMargins : List Nat
  /-- The candidate outside of flow mappings, or in the innermost. -/
  candidate : Option Candidate
  /-- The candidates around it, one for each flow mapping. -/
  outerCandidates : List (Option Candidate)
  /-- A key may come next. -/
  keyAllowed : Bool

namespace Layout

def start (ps : Input) : Layout := ⟨ps, [], 0, 0, [], none, [], true⟩

def inFlow (s : Layout) : Bool := !s.outerCandidates.isEmpty

/-- One more token. -/
def emit (s : Layout) (t : Token) : Layout :=
  { s with tokens := t :: s.tokens, count := s.count + 1 }

/-- One more token, where there were `before` tokens. -/
def putIn (s : Layout) (before : Nat) (t : Token) : Layout :=
  let after := s.count - before
  { s with tokens := s.tokens.take after ++ t :: s.tokens.drop after, count := s.count + 1 }

/-! ### Blanks -/

/-- What comes after blanks, comments and line breaks, and whether a key may be there.  A tab is
    a blank only where no key may be, and in flow mappings.  A byte order mark may be at the
    start of a line. -/
def pass (inFlow inComment keyAllowed : Bool) : Input → Bool × Input
  | [] => (keyAllowed, [])
  | p :: ps =>
    if isBreak p.char then pass inFlow false (keyAllowed || !inFlow) ps
    else if inComment then pass inFlow true keyAllowed ps
    else if p.char = ' ' then pass inFlow false keyAllowed ps
    else if p.char = '\t' ∧ (inFlow ∨ keyAllowed = false) then pass inFlow false keyAllowed ps
    else if p.char = '#' then pass inFlow true keyAllowed ps
    else if p.char = '\ufeff' ∧ p.column = 0 then pass inFlow false keyAllowed ps
    else (keyAllowed, p :: ps)

def skipBlanks (s : Layout) : Layout :=
  let (keyAllowed, rest) := pass s.inFlow false s.keyAllowed s.rest
  { s with keyAllowed, rest }

/-! ### Candidates -/

/-- Forgets the candidate, which may not have been required. -/
def dropCandidate (s : Layout) : Option Layout :=
  if s.candidate.any Candidate.isRequired then none else some { s with candidate := none }

/-- Forgets the candidate if it is stale, which a required one may not be.  The candidates around
    it are looked at when it is their turn again. -/
def dropStale (s : Layout) (now : Place) : Option Layout :=
  if s.candidate.any fun c => c.isStale now then s.dropCandidate else some s

/-- Takes the node at the given place for a candidate, if a key may be there. -/
def propose (s : Layout) (p : Place) : Option Layout :=
  if s.keyAllowed then do
    let s ← s.dropCandidate
    let isRequired := !s.inFlow && s.margin = p.column + 1
    return { s with candidate := some ⟨p, s.count, isRequired⟩ }
  else some s

/-! ### Block mappings -/

/-- Begins a block mapping in a column, unless it is in one already.  There are `before` tokens
    before it. -/
def openBlock (s : Layout) (column before : Nat) : Layout :=
  if s.inFlow ∨ column < s.margin then s
  else
    { s.putIn before .blockMapping with
      margin := column + 1
      outerMargins := s.margin :: s.outerMargins }

/-- Ends the block mappings with a margin above `limit`: the margin and the margins around it that
    are left, and how many mappings end. -/
def marginsBelow (limit margin : Nat) (ended : Nat) : List Nat → Nat × List Nat × Nat
  | [] => (margin, [], ended)
  | m :: ms =>
    if limit < margin then marginsBelow limit m (ended + 1) ms else (margin, m :: ms, ended)

def closeBlocks (s : Layout) (limit : Nat) : Layout :=
  if s.inFlow then s
  else
    let (margin, outerMargins, ended) := marginsBelow limit s.margin 0 s.outerMargins
    { s with
      margin, outerMargins
      tokens := List.replicate ended .blockEnd ++ s.tokens
      count := ended + s.count }

/-! ### Tokens -/

/-- A directive or a mark that bounds a document. -/
def readBound (s : Layout) (t : Token) (rest : Input) : Option Layout := do
  let s ← (s.closeBlocks 0).dropCandidate
  return { s.emit t with keyAllowed := false, rest }

/-- The start of a flow mapping. -/
def readFlowStart (s : Layout) (p : Place) (rest : Input) : Option Layout := do
  let s ← s.propose p
  return { s.emit .flowMapping with
    candidate := none
    outerCandidates := s.candidate :: s.outerCandidates
    keyAllowed := true
    rest }

/-- The end of a flow mapping. -/
def readFlowEnd (s : Layout) (rest : Input) : Option Layout := do
  let s ← s.dropCandidate
  match s.outerCandidates with
  | [] => none
  | candidate :: outerCandidates =>
    return { s.emit .flowEnd with candidate, outerCandidates, keyAllowed := false, rest }

/-- A comma between the entries of a flow mapping. -/
def readComma (s : Layout) (rest : Input) : Option Layout :=
  if s.inFlow then do
    let s ← s.dropCandidate
    return { s.emit .comma with keyAllowed := true, rest }
  else none

/-- A question mark before a key. -/
def readKey (s : Layout) (p : Place) (rest : Input) : Option Layout :=
  if s.inFlow ∨ s.keyAllowed then do
    let s ← (s.openBlock p.column s.count).dropCandidate
    return { s.emit .key with keyAllowed := !s.inFlow, rest }
  else none

/-- A colon before a value: the candidate is a key, or the key was marked. -/
def readValue (s : Layout) (p : Place) (rest : Input) : Option Layout :=
  match s.candidate with
  | some c =>
    let s := (s.putIn c.before .key).openBlock c.place.column c.before
    some { s.emit .value with candidate := none, keyAllowed := false, rest }
  | none =>
    if s.inFlow ∨ s.keyAllowed then
      let s := s.openBlock p.column s.count
      some { s.emit .value with keyAllowed := !s.inFlow, rest }
    else none

/-- A node at the given place that is one token. -/
def readNode (s : Layout) (p : Place) (t : Token) (rest : Input) : Option Layout := do
  let s ← s.propose p
  return { s.emit t with keyAllowed := false, rest }

/-- A block of lines after its indicator. -/
def readBlockScalar (s : Layout) (style : Style) (ps : Input) : Option Layout := do
  let s ← s.dropCandidate
  let x ← blockScalar? (style = .literal) s.margin ps
  return { s.emit (.scalar style x.text) with keyAllowed := true, rest := x.rest }

/-- A plain scalar.  After a line break a key may come next. -/
def readPlain (s : Layout) (p : Place) (ps : Input) : Option Layout := do
  let (x, isBroken) ← plainRest s.inFlow s.margin [p.char] .none ps
  let s ← s.readNode p (.scalar .plain x.text) x.rest
  return { s with keyAllowed := isBroken }

/-- The next token, which begins with the character `p`. -/
def read (s : Layout) (p : Place) (ps : Input) : Option Layout :=
  if p.column = 0 ∧ p.char = '%' then do
    let (t, rest) ← directive? ps
    s.readBound t rest
  else if let some rest := Input.afterMarker? '-' (p :: ps) then s.readBound .documentStart rest
  else if let some rest := Input.afterMarker? '.' (p :: ps) then s.readBound .documentEnd rest
  else
    let isApart := s.inFlow || ps.startsBlank
    match p.char with
    | '\x7b' => s.readFlowStart p ps
    | '\x7d' => s.readFlowEnd ps
    | ',' => s.readComma ps
    | '*' => do
      let (name, rest) ← anchorName? ps
      s.readNode p (.alias name) rest
    | '&' => do
      let (name, rest) ← anchorName? ps
      s.readNode p (.anchor name) rest
    | '!' => do
      let (t, rest) ← tag? s.inFlow ps
      s.readNode p t rest
    | '\x27' => do
      let x ← singleRest [] .none ps
      s.readNode p (.scalar .single x.text) x.rest
    | '\x22' => do
      let x ← doubleRest [] .none ps
      s.readNode p (.scalar .double x.text) x.rest
    | '|' => if s.inFlow then none else s.readBlockScalar .literal ps
    | '>' => if s.inFlow then none else s.readBlockScalar .folded ps
    | c =>
      if c = '?' ∧ isApart then s.readKey p ps
      else if c = ':' ∧ isApart then s.readValue p ps
      else if startsPlain s.inFlow (p :: ps) then s.readPlain p ps
      else none

/-- All tokens, with at most `fuel` tokens to be read. -/
def readAll (fuel : Nat) (s : Layout) : Option (List Token) :=
  match fuel with
  | 0 => none
  | fuel + 1 =>
    let s := s.skipBlanks
    match s.rest with
    | [] => (s.closeBlocks 0).dropCandidate.map fun s => s.tokens.reverse
    | p :: ps =>
      match s.dropStale p with
      | none => none
      | some s =>
        match (s.closeBlocks (p.column + 1)).read p ps with
        | none => none
        | some s => readAll fuel s

end Layout

/-- The tokens of a text. -/
def tokens? (text : String) : Option (List Token) := do
  let ps ← Input.ofText? text
  (Layout.start ps).readAll (ps.length + 1)

end Yaml
end StreamVerdict
