/-
  The tokens of a YAML text.

  Tokens are what is left of a text when its layout is understood: where a block mapping
  begins and ends, what is a key and what a value.  There are no tokens for lists, which have
  no meaning in settings.
-/

namespace StreamVerdict
namespace Yaml

/-- How a scalar is written. -/
inductive Style where
  | plain
  | single
  | double
  | literal
  | folded
deriving DecidableEq

/-- A token of a YAML text. -/
inductive Token where
  | version (major minor : Nat)
  /-- A directive that gives a meaning to the handle of tags. -/
  | handle (name meaning : List Char)
  | documentStart
  | documentEnd
  | blockMapping
  | blockEnd
  | flowMapping
  | flowEnd
  | comma
  | key
  | value
  | alias (name : List Char)
  | anchor (name : List Char)
  | tag (handle suffix : List Char)
  | scalar (style : Style) (text : String)
deriving DecidableEq

end Yaml
end StreamVerdict
