/-
  JSON values.

  Objects keep their members as written, repetitions included, because a repeated field is
  an error of the record that is read and not of the text.  Of the numbers only naturals
  have a value here; a number with a sign, a fraction or an exponent keeps its spelling.

  Three kinds of values come from texts only.  Some values are well formed and yet cannot be
  read, but only be passed over.  Whether the names of an object are written with escapes
  matters where the names are numbers.  And an empty object that is set aside before it is
  read also stands for nothing.
-/

namespace StreamVerdict

/-- A JSON value. -/
inductive Json where
  | null
  | bool (b : Bool)
  | nat (n : Nat)
  | real (spelling : String)
  | text (s : String)
  | arr (items : List Json)
  | obj (members : List (String × Json))
  /-- An object with a member name that is written with escapes. -/
  | objEscaped (members : List (String × Json))
  /-- An empty object that was set aside. -/
  | hollow
  /-- A value that can be passed over but not read: a text with half of a surrogate pair, a
      number out of range, a value that is nested too deep. -/
  | unreadable

namespace Json

instance : Inhabited Json := ⟨null⟩

/-- The members of an object. -/
def members? : Json → Option (List (String × Json))
  | obj members => some members
  | objEscaped members => some members
  | hollow => some []
  | _ => none

/-- The members of an object; other values have none. -/
def members (j : Json) : List (String × Json) := j.members?.getD []

/-- The first member with the given name. -/
def member? (name : String) (j : Json) : Option Json := j.members.lookup name

/-- `none` as `null`. -/
def ofOption {α : Type} (f : α → Json) : Option α → Json
  | none => null
  | some a => f a

def ofList {α : Type} (f : α → Json) (as : List α) : Json := arr (as.map f)

/-! ### Setting values aside

A value may have to be kept until it is known how to read it.  It has to be readable in all
its parts then. -/

mutual

/-- The value to be read later. -/
def setAside : Json → Option Json
  | arr items => (setAsideItems items).map arr
  | obj [] => some hollow
  | obj (m :: ms) => (setAsideMembers (m :: ms)).map obj
  | objEscaped ms => (setAsideMembers ms).map objEscaped
  | unreadable => none
  | j => some j

def setAsideItems : List Json → Option (List Json)
  | [] => some []
  | v :: vs =>
    match setAside v, setAsideItems vs with
    | some v, some vs => some (v :: vs)
    | _, _ => none

def setAsideMembers : List (String × Json) → Option (List (String × Json))
  | [] => some []
  | (name, v) :: ms =>
    match setAside v, setAsideMembers ms with
    | some v, some ms => some ((name, v) :: ms)
    | _, _ => none

end

end Json
end StreamVerdict
