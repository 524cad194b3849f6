/-
  The range of JSON numbers.

  A number is estimated by a significand of at most 64 bits times a power of ten, both rounded
  to double precision.  It is out of range if the product of the two is infinite.  A whole
  number that fits into 64 bits is not estimated.
-/

namespace StreamVerdict
namespace Json

/-- A number without its sign, part by part. -/
structure Numeral where
  whole : List Char
  fraction : List Char
  /-- Whether the exponent is negative, and its digits. -/
  exponent : Option (Bool × List Char)
deriving DecidableEq

namespace Numeral

def digit (c : Char) : Nat := c.toNat - '0'.toNat

/-- The digits of the whole part as far as 64 bits hold them, and how many are left out. -/
def wholePart (digits : List Char) : Nat × Nat :=
  digits.foldl
    (fun part c =>
      let next := 10 * part.1 + digit c
      if 0 < part.2 ∨ UInt64.size ≤ next then (part.1, part.2 + 1) else (next, 0))
    (0, 0)

/-- The significand with the digits of the fraction as far as 64 bits hold them, and how many
    these are. -/
def withFraction (significand taken : Nat) : List Char → Nat × Nat
  | [] => (significand, taken)
  | c :: cs =>
    let next := 10 * significand + digit c
    if UInt64.size ≤ next then (significand, taken) else withFraction next (taken + 1) cs

/-! ### Double precision -/

/-- The nearest number with 53 significant bits; of two nearest the even one. -/
def toDouble (n : Nat) : Nat :=
  let excess := n.log2 + 1 - 53
  let kept := n >>> excess
  let rest := n - kept <<< excess
  let half := (1 <<< excess) / 2
  if half < rest ∨ (half = rest ∧ 0 < excess ∧ kept % 2 = 1) then (kept + 1) <<< excess
  else kept <<< excess

/-- The least product that is rounded to infinity. -/
def infinite : Nat := (1 <<< 1024) - (1 <<< 970)

/-- The highest power of ten that is finite. -/
def maxPower : Nat := 308

/-- The estimate `significand * 10 ^ exponent` is infinite. -/
def isInfinite (significand : Nat) : Int → Bool
  | .ofNat e =>
    if e ≤ maxPower then infinite ≤ toDouble significand * toDouble (Nat.pow 10 e)
    else significand ≠ 0
  | .negSucc _ => false

/-- The highest exponent that is taken for what it says. -/
def maxExponent : Nat := 2147483647

/-- The number is out of range. -/
def isVast (n : Numeral) : Bool :=
  let (significand, dropped) := wholePart n.whole
  if dropped = 0 ∧ n.fraction.isEmpty ∧ n.exponent.isNone then false
  else
    let (significand, taken) := withFraction significand 0 n.fraction
    let scale : Int := (dropped : Int) - (taken : Int)
    match n.exponent with
    | none => isInfinite significand scale
    | some (isNegative, digits) =>
      let e := Nat.ofDigitChars 10 digits 0
      if maxExponent < e then !isNegative && significand ≠ 0
      else isInfinite significand (if isNegative then scale - e else scale + e)

end Numeral
end Json
end StreamVerdict
