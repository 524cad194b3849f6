/-
  Domain values as JSON values.

  A record is an object with one member per field, or an array with the fields in order.
  A field may be required, optional (`null` or left out mean none) or have a default (left
  out means the default).  Members that name no field are passed over, unless the record is a
  closed one; a field that is named twice is an error.  An enumeration is the name of one of
  its cases.  A choice between records is a record with one more field, its tag; the others
  are set aside until the tag is known.
-/
import StreamVerdict.Data.Text
import StreamVerdict.Json.Value

namespace StreamVerdict

/-- A type whose values are exchanged as JSON values. -/
class Wire (α : Type) where
  encode : α → Json
  decode : Json → Option α

namespace Wire

instance : Wire Bool where
  encode := .bool
  decode
    | .bool b => some b
    | _ => none

instance : Wire String where
  encode := .text
  decode
    | .text s => some s
    | _ => none

/-- A natural number below `bound`. -/
def natBelow (bound : Nat) : Json → Option Nat
  | .nat n => if n < bound then some n else none
  | _ => none

/-- A number of 32 bits: value numbers and program counters. -/
def word32 : Json → Option Nat := natBelow UInt32.size

/-- A number of 64 bits: positions in a list. -/
def word64 : Json → Option Nat := natBelow UInt64.size

instance : Wire UInt32 where
  encode n := .nat n.toNat
  decode j := (word32 j).map UInt32.ofNat

instance : Wire UInt64 where
  encode n := .nat n.toNat
  decode j := (word64 j).map UInt64.ofNat

/-- The items of an array, each read by `f`. -/
def listOf {α : Type} (f : Json → Option α) : Json → Option (List α)
  | .arr items => items.mapM f
  | _ => none

instance {α : Type} [Wire α] : Wire (List α) where
  encode as := .arr (as.map encode)
  decode := listOf decode

/-- `null`, or what `f` reads. -/
def optionOf {α : Type} (f : Json → Option α) : Json → Option (Option α)
  | .null => some none
  | j => (f j).map some

instance {α : Type} [Wire α] : Wire (Option α) where
  encode := Json.ofOption encode
  decode := optionOf decode

/-! ### Enumerations -/

/-- The name of a case that carries nothing: alone, or as the name of a member that says so. -/
def caseName? : Json → Option String
  | .text s => some s
  | j =>
    match j.members? with
    | some [(s, .null)] => some s
    | some [(s, .hollow)] => some s
    | _ => none

/-- The case with the given name among `cases`. -/
def oneOf {α : Type} (cases : List (String × α)) (j : Json) : Option α :=
  (caseName? j).bind fun s => cases.lookup s

/-! ### Records -/

/-- How one field of a record was given. -/
inductive Slot where
  | given (value : Json)
  /-- The object has no such member. -/
  | omitted
  /-- The array ends before this field. -/
  | cutOff

/-- The fields of a record, each with the way it was given. -/
structure Record where
  slots : List (String × Slot)

namespace Record

/-- The slot of the field `name` in an object. -/
def slotIn (members : List (String × Json)) (name : String) : Slot :=
  match members.lookup name with
  | some v => .given v
  | none => .omitted

/-- The slots of an array, field by field. -/
def slotsOf : List String → List Json → List (String × Slot)
  | [], _ => []
  | name :: names, [] => (name, .cutOff) :: slotsOf names []
  | name :: names, v :: vs => (name, .given v) :: slotsOf names vs

/-- Reads a record with the fields `names`. -/
def read (names : List String) : Json → Option Record
  | .arr items => if items.length ≤ names.length then some ⟨slotsOf names items⟩ else none
  | j => do
    let members ← j.members?
    if names.all fun name => members.countP (fun m => m.1 = name) ≤ 1 then
      some ⟨names.map fun name => (name, slotIn members name)⟩
    else none

/-- Reads a closed record: members that name no field are refused. -/
def readClosed (names : List String) (j : Json) : Option Record :=
  if j.members.all fun m => m.1 ∈ names then read names j else none

def slot (r : Record) (name : String) : Slot := (r.slots.lookup name).getD .omitted

/-- A field that has to be given. -/
def requiredBy {α : Type} (f : Json → Option α) (r : Record) (name : String) : Option α :=
  match r.slot name with
  | .given v => f v
  | _ => none

/-- A field that `null` or its absence from an object leave empty. -/
def optionalBy {α : Type} (f : Json → Option α) (r : Record) (name : String) : Option (Option α) :=
  match r.slot name with
  | .given v => optionOf f v
  | .omitted => some none
  | .cutOff => none

def required {α : Type} [Wire α] (r : Record) (name : String) : Option α :=
  r.requiredBy decode name

def optional {α : Type} [Wire α] (r : Record) (name : String) : Option (Option α) :=
  r.optionalBy decode name

/-- A field that has the value `d` when it is not given. -/
def orElse {α : Type} [Wire α] (r : Record) (name : String) (d : α) : Option α :=
  match r.slot name with
  | .given v => decode v
  | _ => some d

end Record

/-! ### Choices between records -/

/-- The tag of a choice and the record that is left without it. -/
def untag (tag : String) : Json → Option (String × Json)
  | .arr (.text s :: items) => (Json.setAsideItems items).map fun items => (s, .arr items)
  | j => do
    let members ← j.members?
    if members.countP (fun m => m.1 = tag) ≤ 1 then
      match members.lookup tag with
      | some (.text s) =>
        (Json.setAsideMembers (members.filter fun m => m.1 ≠ tag)).map fun rest => (s, .obj rest)
      | _ => none
    else none

/-- The record of a case without fields. -/
def noFields : Json → Option Unit
  | .arr [] => some ()
  | j => j.members?.map fun _ => ()

/-- The tag and the content of a choice that keeps them in two fields.  A content that comes
    before the tag is set aside. -/
def tagAndContent (tag content : String) : Json → Option (String × Option Json)
  | .arr [.text s, v] => some (s, some v)
  | j => do
    let members ← j.members?
    if members.countP (fun m => m.1 = tag) ≤ 1 ∧ members.countP (fun m => m.1 = content) ≤ 1 then
      let s ← caseName? (← members.lookup tag)
      match members.find? fun m => m.1 = tag ∨ m.1 = content with
      | some (name, v) =>
        if name = content then return (s, some (← v.setAside))
        else return (s, members.lookup content)
      | none => none
    else none

/-! ### Tables -/

/-- A table with later entries in place of earlier ones of the same key. -/
def lastOfEach {κ α : Type} [DecidableEq κ] (entries : List (κ × α)) : List (κ × α) :=
  entries.foldl (fun table e => table.filter (fun old => old.1 ≠ e.1) ++ [e]) []

/-- A member whose name is a key. -/
def entryOf {κ α : Type} (key : String → Option κ) (f : Json → Option α) (m : String × Json) :
    Option (κ × α) := do
  return (← key m.1, ← f m.2)

/-- An object whose member names are keys. -/
def tableOf {κ α : Type} [DecidableEq κ] (key : String → Option κ) (f : Json → Option α)
    (j : Json) : Option (List (κ × α)) := do
  return lastOfEach (← (← j.members?).mapM (entryOf key f))

/-- A number below `bound`, written as numbers are. -/
def number? (bound : Nat) (name : String) : Option Nat :=
  (Text.natural? name.toList).filter fun n => n < bound

/-- An object whose member names are numbers below `bound`. -/
def numberedOf {α : Type} (bound : Nat) (f : Json → Option α) : Json → Option (List (Nat × α))
  | .objEscaped _ => none
  | j => tableOf (number? bound) f j

end Wire
end StreamVerdict
