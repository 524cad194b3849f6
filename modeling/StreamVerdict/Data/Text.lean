/-
  Text as a list of characters.

  Names and formats are taken apart and put together on `List Char`; `String` is the form
  in which they are kept and compared.
-/

namespace StreamVerdict
namespace Text

/-- `s` with every `old` replaced by `new`. -/
def replace (old new : Char) (s : String) : String :=
  String.ofList (s.toList.map fun c => if c = old then new else c)

/-- The part of a text after its last `c`, or all of it. -/
def afterLast (c : Char) (s : String) : String :=
  String.ofList (s.toList.reverse.takeWhile (· ≠ c)).reverse

/-- The part of a text before its last `c`, if it has one. -/
def beforeLast? (c : Char) (s : String) : Option String :=
  match s.toList.reverse.dropWhile (· ≠ c) with
  | [] => none
  | _ :: rest => some (String.ofList rest.reverse)

/-- Capital letters of the Latin alphabet made small, all else kept. -/
def lower (s : String) : String := String.ofList (s.toList.map Char.toLower)

/-- `s` begins with `head`. -/
def startsWith (head s : String) : Bool := head.toList.isPrefixOf s.toList

/-- `items` with commas between them. -/
def commaSeparated (items : List String) : String := String.intercalate ", " items

/-- The decimal digits of a number, most significant first. -/
def decimal (n : Nat) : List Char := Nat.toDigits 10 n

/-- The number that a run of decimal digits writes; a leading zero stands alone. -/
def natural? (cs : List Char) : Option Nat :=
  if cs.all Char.isDigit ∧ (cs.length = 1 ∨ cs.head?.any (· ≠ '0')) then
    some (Nat.ofDigitChars 10 cs 0)
  else none

/-- The value of a hexadecimal digit, in either case. -/
def hexDigit? (c : Char) : Option Nat :=
  if c.isDigit then some (c.toNat - '0'.toNat)
  else if 'a' ≤ c ∧ c ≤ 'f' then some (c.toNat - 'a'.toNat + 10)
  else if 'A' ≤ c ∧ c ≤ 'F' then some (c.toNat - 'A'.toNat + 10)
  else none

/-- The number that digits write in a base up to sixteen. -/
def numeral? (base : Nat) (cs : List Char) : Option Nat :=
  if cs.isEmpty then none
  else do
    let ds ← cs.mapM hexDigit?
    if ds.all (· < base) then some (ds.foldl (fun acc d => base * acc + d) 0) else none

end Text
end StreamVerdict
