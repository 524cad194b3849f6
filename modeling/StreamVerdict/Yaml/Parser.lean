/-
  Reading YAML documents from their tokens.

  A text holds one document.  A node may have an anchor and a tag before it, and where a node
  is missing nothing stands for it.  Anchors are numbered by how many names there are when they
  are met, and an alias gets the number that its name has then.
-/
import StreamVerdict.Yaml.Layout
import StreamVerdict.Yaml.Value

namespace StreamVerdict
namespace Yaml

/-- What the handles of tags mean, first ones first. -/
abbrev Handles := List (List Char × List Char)

namespace Handles

/-- The meanings of handles about which nothing is said. -/
def standard : Handles := [(['!'], ['!']), (['!', '!'], coreTag "")]

/-- The whole tag. -/
def resolve? (handles : Handles) (handle suffix : List Char) : Option (List Char) :=
  if handle = [] then some suffix else (handles.lookup handle).map fun meaning => meaning ++ suffix

end Handles

/-- How far the tokens were read. -/
structure Reading where
  tokens : List Token
  /-- The numbers of the anchors' names. -/
  names : List (List Char × Nat)

namespace Reading

def next (r : Reading) (ts : List Token) : Reading := { r with tokens := ts }

/-- The next token is one of these. -/
def startsWith (r : Reading) (ts : List Token) : Bool := r.tokens.head?.any fun t => t ∈ ts

/-- Numbers an anchor. -/
def mark (r : Reading) (name : List Char) : Nat × Reading :=
  let id := r.names.length
  (id, { r with names := (name, id) :: r.names.filter fun n => n.1 ≠ name })

end Reading

/-- What stands before a node. -/
structure Properties where
  anchor : Option (List Char)
  tag : Option (List Char × List Char)

/-- Reads an anchor and a tag in either order. -/
def properties : List Token → Properties × List Token
  | .anchor a :: .tag h s :: ts => (⟨some a, some (h, s)⟩, ts)
  | .anchor a :: ts => (⟨some a, none⟩, ts)
  | .tag h s :: .anchor a :: ts => (⟨some a, some (h, s)⟩, ts)
  | .tag h s :: ts => (⟨none, some (h, s)⟩, ts)
  | ts => (⟨none, none⟩, ts)

/-- How deep mappings may be nested. -/
def maxDepth : Nat := 128

/-! ### Nodes -/

mutual

/-- Reads a node.  A block mapping may not begin in a flow mapping. -/
def node? (handles : Handles) (inFlow : Bool) (depth fuel : Nat) (r : Reading) :
    Option (Yaml × Reading) :=
  match fuel with
  | 0 => none
  | fuel + 1 =>
    match r.tokens with
    | .alias name :: ts => (r.names.lookup name).map fun id => (.alias id, r.next ts)
    | _ => do
      let (props, ts) := properties r.tokens
      let tag ← match props.tag with
        | none => some none
        | some (handle, suffix) => (handles.resolve? handle suffix).map some
      let (name, r) : (Yaml → Yaml) × Reading := match props.anchor with
        | none => (id, r.next ts)
        | some a =>
          let (n, r) := (r.next ts).mark a
          (.anchored n, r)
      match ts with
      | .scalar style s :: ts => return (name (.scalar style tag s), r.next ts)
      | .flowMapping :: ts =>
        if depth = 0 then none
        else
          let (v, r) ← flowEntries? handles (depth - 1) fuel [] (r.next ts)
          return (name v, r)
      | .blockMapping :: ts =>
        if depth = 0 ∨ inFlow then none
        else
          let (v, r) ← blockEntries? handles (depth - 1) fuel [] (r.next ts)
          return (name v, r)
      | ts =>
        if props.anchor.isSome ∨ props.tag.isSome then
          return (name (.scalar .plain tag ""), r.next ts)
        else none
termination_by structural fuel

/-- Reads the rest of a block mapping after the entries `acc`, which stand last first. -/
def blockEntries? (handles : Handles) (depth fuel : Nat) (acc : List (Yaml × Yaml)) (r : Reading) :
    Option (Yaml × Reading) :=
  match fuel with
  | 0 => none
  | fuel + 1 =>
    match r.tokens with
    | .blockEnd :: ts => some (.map acc.reverse, r.next ts)
    | .key :: ts => do
      let (k, r) ← blockNode? handles depth fuel (r.next ts)
      match r.tokens with
      | .value :: ts =>
        let (v, r) ← blockNode? handles depth fuel (r.next ts)
        blockEntries? handles depth fuel ((k, v) :: acc) r
      | _ => blockEntries? handles depth fuel ((k, blank) :: acc) r
    | _ => none
termination_by structural fuel

/-- Reads a key or a value of a block mapping, which may be missing. -/
def blockNode? (handles : Handles) (depth fuel : Nat) (r : Reading) : Option (Yaml × Reading) :=
  match fuel with
  | 0 => none
  | fuel + 1 =>
    if r.startsWith [.key, .value, .blockEnd] then some (blank, r)
    else node? handles false depth fuel r
termination_by structural fuel

/-- Reads the rest of a flow mapping after the entries `acc`, which stand last first. -/
def flowEntries? (handles : Handles) (depth fuel : Nat) (acc : List (Yaml × Yaml)) (r : Reading) :
    Option (Yaml × Reading) :=
  match fuel with
  | 0 => none
  | fuel + 1 =>
    match r.tokens with
    | .flowEnd :: ts => some (.map acc.reverse, r.next ts)
    | _ => do
      let (e, r) ← flowEntry? handles depth fuel r
      match r.tokens with
      | .comma :: ts => flowEntries? handles depth fuel (e :: acc) (r.next ts)
      | .flowEnd :: ts => some (.map (e :: acc).reverse, r.next ts)
      | _ => none
termination_by structural fuel

/-- Reads an entry of a flow mapping.  A node that is no key has no value. -/
def flowEntry? (handles : Handles) (depth fuel : Nat) (r : Reading) :
    Option ((Yaml × Yaml) × Reading) :=
  match fuel with
  | 0 => none
  | fuel + 1 =>
    match r.tokens with
    | .key :: ts => do
      let (k, r) ← flowNode? handles [.value, .comma, .flowEnd] depth fuel (r.next ts)
      match r.tokens with
      | .value :: ts =>
        let (v, r) ← flowNode? handles [.comma, .flowEnd] depth fuel (r.next ts)
        return ((k, v), r)
      | _ => return ((k, blank), r)
    | _ => do
      let (k, r) ← node? handles true depth fuel r
      return ((k, blank), r)
termination_by structural fuel

/-- Reads a key or a value of a flow mapping, which is missing before these tokens. -/
def flowNode? (handles : Handles) (ends : List Token) (depth fuel : Nat) (r : Reading) :
    Option (Yaml × Reading) :=
  match fuel with
  | 0 => none
  | fuel + 1 =>
    if r.startsWith ends then some (blank, r) else node? handles true depth fuel r
termination_by structural fuel

end

/-! ### Documents -/

/-- Reads the directives before a document.  There may be one about the version, which has to be
    known, and one for each handle. -/
def directives? (hasVersion : Bool) (handles : Handles) : List Token → Option (Handles × List Token)
  | .version major minor :: ts =>
    if hasVersion = false ∧ major = 1 ∧ (minor = 1 ∨ minor = 2) then directives? true handles ts
    else none
  | .handle name meaning :: ts =>
    if (handles.lookup name).isSome then none
    else directives? hasVersion ((name, meaning) :: handles) ts
  | ts => some (handles.reverse ++ Handles.standard, ts)

/-- The content of a document and the tokens after it. -/
def content? (handles : Handles) (ts : List Token) : Option (Yaml × List Token) := do
  let (y, r) ← node? handles false maxDepth (3 * ts.length + 3) ⟨ts, []⟩
  return (y, r.tokens)

/-- The document that tokens write.  After it there may only be marks of its end. -/
def ofTokens? (ts : List Token) : Option Yaml := do
  let isStart : Token → Bool
    | .version _ _ => true
    | .handle _ _ => true
    | .documentStart => true
    | _ => false
  let (y, rest) ←
    if ts.isEmpty then some (blank, [])
    else if ts.head?.any isStart then do
      match ← directives? false [] ts with
      | (handles, .documentStart :: ts) =>
        if ts.isEmpty ∨ ts.head?.any fun t => isStart t || t = .documentEnd then some (blank, ts)
        else content? handles ts
      | _ => none
    else content? Handles.standard ts
  if rest.all fun t => t = .documentEnd then some y else none

/-- Reads a text that holds one document; an empty one holds nothing. -/
def parse? (text : String) : Option Document := do
  return Document.ofRoot (← ofTokens? (← tokens? text))

end Yaml
end StreamVerdict
