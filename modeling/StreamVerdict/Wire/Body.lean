/-
  Method bodies as JSON values.

  The symbol table is an object whose member names are the value numbers in decimal.
-/
import StreamVerdict.Body.Basic
import StreamVerdict.Wire.Jvm

namespace StreamVerdict

open Wire

instance : Wire Instruction where
  encode
    | .new i v site line => .obj
      [ ("op", .text "new"), ("iindex", .nat i), ("def", .nat v), ("site", encode site),
        ("line", encode line) ]
    | .invoke i v args site line => .obj
      [ ("op", .text "invoke"), ("iindex", .nat i), ("def", Json.ofOption .nat v),
        ("uses", Json.ofList .nat args), ("site", encode site), ("line", encode line) ]
    | .ret i v line => .obj
      [ ("op", .text "return"), ("iindex", .nat i), ("value", Json.ofOption .nat v),
        ("line", encode line) ]
  decode j := do
    match ← untag "op" j with
    | ("new", j) =>
      let r ← Record.read ["iindex", "def", "site", "line"] j
      return .new (← r.requiredBy word64 "iindex") (← r.requiredBy word32 "def")
        (← r.required "site") (← r.required "line")
    | ("invoke", j) =>
      let r ← Record.read ["iindex", "def", "uses", "site", "line"] j
      return .invoke (← r.requiredBy word64 "iindex") (← r.optionalBy word32 "def")
        (← r.requiredBy (listOf word32) "uses") (← r.required "site") (← r.required "line")
    | ("return", j) =>
      let r ← Record.read ["iindex", "value", "line"] j
      return .ret (← r.requiredBy word64 "iindex") (← r.optionalBy word32 "value")
        (← r.required "line")
    | _ => none

instance : Wire Phi where
  encode p := .obj [("def", .nat p.result), ("uses", Json.ofList .nat p.uses)]
  decode j := do
    let r ← Record.read ["def", "uses"] j
    return ⟨← r.requiredBy word32 "def", ← r.requiredBy (listOf word32) "uses"⟩

instance : Wire Definition where
  encode
    | .param i t => .obj
      [("kind", .text "param"), ("index", .nat i), ("declared_type", encode t)]
    | .null => .obj [("kind", .text "null")]
    | .instruction i => .obj [("kind", .text "def"), ("iindex", .nat i)]
    | .phi i => .obj [("kind", .text "phi"), ("index", .nat i)]
  decode j := do
    match ← untag "kind" j with
    | ("param", j) =>
      let r ← Record.read ["index", "declared_type"] j
      return .param (← r.requiredBy word64 "index") (← r.required "declared_type")
    | ("null", j) =>
      noFields j
      return .null
    | ("def", j) =>
      let r ← Record.read ["iindex"] j
      return .instruction (← r.requiredBy word64 "iindex")
    | ("phi", j) =>
      let r ← Record.read ["index"] j
      return .phi (← r.requiredBy word64 "index")
    | _ => none

namespace SymbolTable

instance : Wire SymbolTable where
  encode t := .obj
    [ ("values", .obj (t.entries.map fun e => (String.ofList (Text.decimal e.1), encode e.2))),
      ("max_value", .nat t.maxValue) ]
  decode j := do
    let r ← Record.read ["values", "max_value"] j
    let entries ←
      r.requiredBy (numberedOf UInt32.size fun j => (decode j : Option Definition)) "values"
    return ofEntries entries (← r.requiredBy word32 "max_value")

end SymbolTable

instance : Wire Body where
  encode b := .obj
    [ ("method", encode b.method), ("is_static", encode b.isStatic),
      ("params", Json.ofList .nat b.params), ("instructions", encode b.instructions),
      ("phis", encode b.phis), ("symbols", encode b.symbols) ]
  decode j := do
    let r ← Record.read ["method", "is_static", "params", "instructions", "phis", "symbols"] j
    return ⟨← r.required "method", ← r.required "is_static",
      ← r.requiredBy (listOf word32) "params", ← r.required "instructions", ← r.required "phis",
      ← r.required "symbols"⟩

end StreamVerdict
