/-
  YAML values: scalars, mappings, and aliases for values that were given a name.

  A scalar keeps its style and its tag, because what it is depends on what is expected: only a
  plain scalar can be a number, a truth value or null, or a literal one that is tagged so.
-/
import StreamVerdict.Data.Text
import StreamVerdict.Yaml.Token

namespace StreamVerdict

/-- A YAML value. -/
inductive Yaml where
  | scalar (style : Yaml.Style) (tag : Option (List Char)) (text : String)
  | map (entries : List (Yaml × Yaml))
  /-- A value with a number for the aliases of it. -/
  | anchored (id : Nat) (value : Yaml)
  | alias (id : Nat)

namespace Yaml

/-- What stands where nothing is written. -/
def blank : Yaml := scalar .plain none ""

/-- The value without its number. -/
def bare : Yaml → Yaml
  | anchored _ v => bare v
  | v => v

/-! ### Aliases -/

mutual

/-- The values in a value that have numbers, in the order in which they begin. -/
def anchors : Yaml → List (Nat × Yaml)
  | anchored id v => (id, v) :: anchors v
  | map entries => anchorsIn entries
  | _ => []

def anchorsIn : List (Yaml × Yaml) → List (Nat × Yaml)
  | [] => []
  | (k, v) :: es => anchors k ++ (anchors v ++ anchorsIn es)

end

/-- A value with the values that aliases in it stand for, last first. -/
structure Document where
  root : Yaml
  targets : List (Nat × Yaml)

namespace Document

def ofRoot (root : Yaml) : Document := ⟨root, root.anchors.reverse⟩

/-- The scalar or mapping that a value is, or is an alias of.  Of the values with one number
    the last counts. -/
def node? (d : Document) (y : Yaml) : Option Yaml :=
  match y.bare with
  | .alias id => (d.targets.lookup id).map bare
  | y => some y

end Document

/-! ### Readings of scalars -/

/-- The tags of truth values, numbers and null. -/
def coreTag (name : String) : List Char := ("tag:yaml.org,2002:" ++ name).toList

/-- The spellings of null. -/
def nullWords : List String := ["~", "null", "Null", "NULL"]

/-- Whether a value is null.  A scalar that is tagged so has to be. -/
def isNull? : Yaml → Option Bool
  | scalar .plain none s => some (s = "" ∨ s ∈ nullWords)
  | scalar .plain (some tag) s =>
    if tag = coreTag "null" then (if s ∈ nullWords then some true else none) else some false
  | _ => some false

/-- A scalar of any style as a text. -/
def text? : Yaml → Option String
  | scalar _ _ s => some s
  | _ => none

/-- The text of a scalar that may be more than a text, namely a value of type `name`. -/
def word? (name : String) : Yaml → Option String
  | scalar .plain _ s => some s
  | scalar .literal (some tag) s => if tag = coreTag name then some s else none
  | _ => none

def bool? (y : Yaml) : Option Bool := do
  let s ← y.word? "bool"
  if s ∈ ["true", "True", "TRUE"] then some true
  else if s ∈ ["false", "False", "FALSE"] then some false
  else none

/-- The digits of a number without its sign.  A leading zero is a number only alone. -/
def digits? : List Char → Option Nat
  | '0' :: 'x' :: cs => Text.numeral? 16 cs
  | '0' :: 'o' :: cs => Text.numeral? 8 cs
  | '0' :: 'b' :: cs => Text.numeral? 2 cs
  | ['0'] => some 0
  | '0' :: _ => none
  | cs => Text.numeral? 10 cs

/-- A natural number below `bound`. -/
def natBelow? (bound : Nat) (y : Yaml) : Option Nat := do
  let n ← match (← y.word? "int").toList with
    | '+' :: cs => digits? cs
    | cs => digits? cs
  if n < bound then some n else none

/-- The entries of a mapping.  Nothing is a mapping, too. -/
def entries? : Yaml → Option (List (Yaml × Yaml))
  | map entries => some entries
  | scalar .plain _ s => if s = "" then some [] else none
  | _ => none

end Yaml
end StreamVerdict
