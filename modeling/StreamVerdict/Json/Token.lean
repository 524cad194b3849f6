/-
  The words of a JSON text.

  `lex` cuts a text into words and drops the blanks between them.  A string is read piece by
  piece, and then the pieces are put together: two escapes that are the halves of a surrogate
  pair make one character.  A string with a single half is a word still, but one without a
  value, and so is a number out of range.
-/
import StreamVerdict.Data.Text
import StreamVerdict.Json.Numeral

namespace StreamVerdict
namespace Json

/-- A word of a JSON text. -/
inductive Token where
  | openObject
  | closeObject
  | openArray
  | closeArray
  | colon
  | comma
  | null
  | bool (b : Bool)
  | nat (n : Nat)
  | real (spelling : String)
  /-- A number out of range. -/
  | vast
  /-- A string, and whether it is written without escapes. -/
  | text (s : String) (isPlain : Bool)
  /-- A string with half of a surrogate pair. -/
  | unpaired
deriving DecidableEq

/-- A piece of a string. -/
inductive Piece where
  | char (c : Char)
  /-- A character that is written with a backslash and one letter. -/
  | letter (c : Char)
  /-- A code unit that is written with four hexadecimal digits. -/
  | unit (n : Nat)
deriving DecidableEq

/-! ### Strings -/

namespace Piece

/-- The code unit written with four hexadecimal digits. -/
def codeUnit? (a b c d : Char) : Option Nat := do
  return 4096 * (← Text.hexDigit? a) + 256 * (← Text.hexDigit? b) + 16 * (← Text.hexDigit? c)
    + (← Text.hexDigit? d)

/-- The character that a surrogate pair stands for. -/
def ofPair? (high low : Nat) : Option Char :=
  if 0xD800 ≤ high ∧ high ≤ 0xDBFF ∧ 0xDC00 ≤ low ∧ low ≤ 0xDFFF then
    some (Char.ofNat (0x10000 + 0x400 * (high - 0xD800) + (low - 0xDC00)))
  else none

/-- The character that an escape of one letter stands for. -/
def ofLetter? : Char → Option Char
  | '\x22' => some '\x22'
  | '\\' => some '\\'
  | '/' => some '/'
  | 'b' => some '\x08'
  | 'f' => some '\x0c'
  | 'n' => some '\n'
  | 'r' => some '\r'
  | 't' => some '\t'
  | _ => none

def isChar : Piece → Bool
  | char _ => true
  | _ => false

/-- The pieces of a string after its opening quote, and what follows its closing quote.  The
    pieces `acc` were read before, last first. -/
def readAll (acc : List Piece) : List Char → Option (List Piece × List Char)
  | [] => none
  | '\x22' :: rest => some (acc.reverse, rest)
  | '\\' :: 'u' :: a :: b :: c :: d :: rest =>
    match codeUnit? a b c d with
    | none => none
    | some n => readAll (unit n :: acc) rest
  | '\\' :: e :: rest =>
    match ofLetter? e with
    | none => none
    | some meant => readAll (letter meant :: acc) rest
  | c :: rest => if c.toNat < 0x20 ∨ c = '\\' then none else readAll (char c :: acc) rest

/-- The characters that pieces write, after those of `acc`, which stand last first. -/
def join? (acc : List Char) : List Piece → Option (List Char)
  | [] => some acc.reverse
  | char c :: ps => join? (c :: acc) ps
  | letter c :: ps => join? (c :: acc) ps
  | unit n :: ps =>
    if n < 0xD800 ∨ 0xDFFF < n then join? (Char.ofNat n :: acc) ps
    else
      match ps with
      | unit low :: ps =>
        match ofPair? n low with
        | some c => join? (c :: acc) ps
        | none => none
      | _ => none

/-- The word that pieces make. -/
def toToken (ps : List Piece) : Token :=
  match join? [] ps with
  | some cs => .text (String.ofList cs) (ps.all isChar)
  | none => .unpaired

theorem length_readAll_lt {acc : List Piece} {cs : List Char} {r : List Piece × List Char}
    (h : readAll acc cs = some r) : r.2.length < cs.length := by
  fun_induction readAll acc cs with
  | case1 => simp at h
  | case2 => cases h; simp
  | case3 => simp at h
  | case4 _ _ _ _ _ _ _ _ ih => have := ih h; simp; omega
  | case5 => simp at h
  | case6 _ _ _ _ _ _ ih => have := ih h; simp; omega
  | case7 => simp at h
  | case8 _ _ _ _ _ _ _ ih => have := ih h; simp; omega

end Piece

namespace Token

/-- Blanks may stand between words. -/
def isBlank (c : Char) : Bool := c = ' ' ∨ c = '\n' ∨ c = '\r' ∨ c = '\t'

/-! ### Numbers -/

/-- A run of digits, at least one, and what follows it. -/
def readDigits (cs : List Char) : Option (List Char × List Char) :=
  match cs.takeWhile Char.isDigit with
  | [] => none
  | ds => some (ds, cs.dropWhile Char.isDigit)

/-- The digits of a fraction, if there is one, and what follows them. -/
def readFraction : List Char → Option (List Char × List Char)
  | '.' :: rest => readDigits rest
  | rest => some ([], rest)

/-- The sign and the digits of an exponent, if there is one, and what follows them. -/
def readExponent : List Char → Option (Option (Bool × List Char) × List Char)
  | c :: rest =>
    if c = 'e' ∨ c = 'E' then
      match rest with
      | '+' :: ds => (readDigits ds).map fun r => (some (false, r.1), r.2)
      | '-' :: ds => (readDigits ds).map fun r => (some (true, r.1), r.2)
      | ds => (readDigits ds).map fun r => (some (false, r.1), r.2)
    else some (none, c :: rest)
  | [] => some (none, [])

/-- The whole part of a number: a zero alone, or digits that begin with another. -/
def readWhole : List Char → Option (List Char × List Char)
  | '0' :: rest => some (['0'], rest)
  | cs => readDigits cs

/-- A number and what follows it. -/
def readNumber (cs : List Char) : Option (Token × List Char) := do
  let isNegative : Bool := cs.head? = some '-'
  let (whole, rest) ← readWhole (if isNegative then cs.drop 1 else cs)
  let (fraction, rest) ← readFraction rest
  let (exponent, rest) ← readExponent rest
  let number : Numeral := ⟨whole, fraction, exponent⟩
  if number.isVast then return (vast, rest)
  else if isNegative ∨ fraction ≠ [] ∨ exponent.isSome then
    return (real (String.ofList (cs.take (cs.length - rest.length))), rest)
  else return (nat (Nat.ofDigitChars 10 whole 0), rest)

/-! ### Words -/

/-- The first word of a text that begins with no blank, and what follows it. -/
def readToken : List Char → Option (Token × List Char)
  | '\x7b' :: rest => some (openObject, rest)
  | '\x7d' :: rest => some (closeObject, rest)
  | '[' :: rest => some (openArray, rest)
  | ']' :: rest => some (closeArray, rest)
  | ':' :: rest => some (colon, rest)
  | ',' :: rest => some (comma, rest)
  | '\x22' :: rest => (Piece.readAll [] rest).map fun r => (Piece.toToken r.1, r.2)
  | 'n' :: 'u' :: 'l' :: 'l' :: rest => some (null, rest)
  | 't' :: 'r' :: 'u' :: 'e' :: rest => some (bool true, rest)
  | 'f' :: 'a' :: 'l' :: 's' :: 'e' :: rest => some (bool false, rest)
  | cs => readNumber cs

/-! ### A word takes at least one character -/

theorem length_readDigits_lt {cs : List Char} {r : List Char × List Char}
    (h : readDigits cs = some r) : r.2.length < cs.length := by
  unfold readDigits at h
  split at h
  · simp at h
  · next ds hds =>
    obtain rfl := Option.some.inj h
    have hsplit := congrArg List.length
      (List.takeWhile_append_dropWhile (p := Char.isDigit) (l := cs))
    simp only [List.length_append] at hsplit
    have hpos : 0 < (cs.takeWhile Char.isDigit).length := List.length_pos_iff.mpr hds
    simp only; omega

theorem length_readFraction_le {cs : List Char} {r : List Char × List Char}
    (h : readFraction cs = some r) : r.2.length ≤ cs.length := by
  unfold readFraction at h
  split at h
  · have := length_readDigits_lt h
    simp; omega
  · cases h
    exact Nat.le_refl _

theorem length_readExponent_le {cs : List Char} {r : Option (Bool × List Char) × List Char}
    (h : readExponent cs = some r) : r.2.length ≤ cs.length := by
  unfold readExponent at h
  split at h
  · split at h
    · split at h <;>
      · obtain ⟨r, hr, rfl⟩ := Option.map_eq_some_iff.mp h
        have := length_readDigits_lt hr
        simp; omega
    · cases h
      exact Nat.le_refl _
  · cases h
    exact Nat.le_refl _

theorem length_readWhole_lt {cs : List Char} {r : List Char × List Char}
    (h : readWhole cs = some r) : r.2.length < cs.length := by
  unfold readWhole at h
  split at h
  · obtain rfl := Option.some.inj h
    simp
  · exact length_readDigits_lt h

theorem length_readNumber_lt {cs : List Char} {r : Token × List Char}
    (h : readNumber cs = some r) : r.2.length < cs.length := by
  unfold readNumber at h
  obtain ⟨⟨whole, rest⟩, hw, h⟩ := Option.bind_eq_some_iff.mp h
  obtain ⟨⟨fraction, rest'⟩, hf, h⟩ := Option.bind_eq_some_iff.mp h
  obtain ⟨⟨exponent, rest''⟩, he, h⟩ := Option.bind_eq_some_iff.mp h
  have hwhole := length_readWhole_lt hw
  have hfraction := length_readFraction_le hf
  have hexponent := length_readExponent_le he
  have hsign : (if decide (cs.head? = some '-') = true then cs.drop 1 else cs).length
      ≤ cs.length := by
    split <;> simp
  simp only at hwhole hfraction hexponent h
  split at h
  · cases h
    simp only; omega
  · split at h <;>
    · cases h
      simp only; omega

theorem length_readToken_lt {cs : List Char} {t : Token} {rest : List Char}
    (h : readToken cs = some (t, rest)) : rest.length < cs.length := by
  unfold readToken at h
  split at h
  case h_7 =>
    obtain ⟨r, hr, hr'⟩ := Option.map_eq_some_iff.mp h
    have := Piece.length_readAll_lt hr
    cases hr'
    simp; omega
  case h_11 => exact length_readNumber_lt h
  all_goals
    cases h
    simp <;> omega

/-- The words of a text after those of `acc`, which stand last first, if the text is made of
    words and blanks only. -/
def lexOnto (acc : List Token) (cs : List Char) : Option (List Token) :=
  match cs with
  | [] => some acc.reverse
  | c :: rest =>
    if isBlank c then lexOnto acc rest
    else
      match _h : readToken (c :: rest) with
      | none => none
      | some (t, rest') => lexOnto (t :: acc) rest'
termination_by cs.length
decreasing_by
  · exact Nat.lt_succ_self _
  · exact length_readToken_lt _h

/-- The words of a text. -/
def lex (cs : List Char) : Option (List Token) := lexOnto [] cs

end Token
end Json
end StreamVerdict
