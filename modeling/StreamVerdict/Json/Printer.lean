/-
  Writing JSON values.

  `pretty` puts each item and each member on a line of its own, indented by two blanks for
  every level, and writes an empty array or object on one line.  `compact` writes no blanks.
  In strings a quote, a backslash and the control characters are escaped, all else stands
  as it is.
-/
import StreamVerdict.Data.Text
import StreamVerdict.Json.Value

namespace StreamVerdict
namespace Json

/-- The small hexadecimal digit of a number below sixteen. -/
def hexChar (n : Nat) : Char := Nat.digitChar n

/-- A character as it is written inside a string. -/
def escape (c : Char) : List Char :=
  if c = '\x22' then ['\\', '\x22']
  else if c = '\\' then ['\\', '\\']
  else if c = '\x08' then ['\\', 'b']
  else if c = '\x0c' then ['\\', 'f']
  else if c = '\n' then ['\\', 'n']
  else if c = '\r' then ['\\', 'r']
  else if c = '\t' then ['\\', 't']
  else if c.toNat < 0x20 then
    ['\\', 'u', '0', '0', hexChar (c.toNat / 16), hexChar (c.toNat % 16)]
  else [c]

/-- A string with its quotes. -/
def quoted (s : String) : List Char := '\x22' :: s.toList.flatMap escape ++ ['\x22']

/-- A value that has no parts.  Arrays and objects are written elsewhere, and what comes from
    texts only is not written. -/
def scalarText : Json → List Char
  | null => "null".toList
  | bool true => "true".toList
  | bool false => "false".toList
  | nat n => Text.decimal n
  | real spelling => spelling.toList
  | text s => quoted s
  | _ => []

/-- The line break before something at the given level. -/
def lineBreak (level : Nat) : List Char := '\n' :: List.replicate (2 * level) ' '

mutual

/-- A value whose own line is indented to `level`. -/
def prettyAt (level : Nat) : Json → List Char
  | arr [] => ['[', ']']
  | arr (v :: vs) =>
    '[' :: (lineBreak (level + 1) ++ (prettyAt (level + 1) v ++ (prettyItems (level + 1) vs
      ++ (lineBreak level ++ [']']))))
  | obj [] => ['\x7b', '\x7d']
  | obj ((name, v) :: ms) =>
    '\x7b' :: (lineBreak (level + 1) ++ (quoted name ++ (':' :: ' ' :: (prettyAt (level + 1) v
      ++ (prettyMembers (level + 1) ms ++ (lineBreak level ++ ['\x7d']))))))
  | v => scalarText v

/-- The items after the first. -/
def prettyItems (level : Nat) : List Json → List Char
  | [] => []
  | v :: vs => ',' :: (lineBreak level ++ (prettyAt level v ++ prettyItems level vs))

/-- The members after the first. -/
def prettyMembers (level : Nat) : List (String × Json) → List Char
  | [] => []
  | (name, v) :: ms =>
    ',' :: (lineBreak level ++ (quoted name ++ (':' :: ' ' :: (prettyAt level v
      ++ prettyMembers level ms))))

end

/-- A value over several lines. -/
def pretty (v : Json) : String := String.ofList (prettyAt 0 v)

mutual

/-- A value without blanks. -/
def compactText : Json → List Char
  | arr [] => ['[', ']']
  | arr (v :: vs) => '[' :: (compactText v ++ compactItems vs)
  | obj [] => ['\x7b', '\x7d']
  | obj ((name, v) :: ms) =>
    '\x7b' :: (quoted name ++ (':' :: (compactText v ++ compactMembers ms)))
  | v => scalarText v

/-- The items after the first, and the closing bracket. -/
def compactItems : List Json → List Char
  | [] => [']']
  | v :: vs => ',' :: (compactText v ++ compactItems vs)

/-- The members after the first, and the closing brace. -/
def compactMembers : List (String × Json) → List Char
  | [] => ['\x7d']
  | (name, v) :: ms => ',' :: (quoted name ++ (':' :: (compactText v ++ compactMembers ms)))

end

/-- A value on one line. -/
def compact (v : Json) : String := String.ofList (compactText v)

end Json
end StreamVerdict
