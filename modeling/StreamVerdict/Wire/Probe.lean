/-
  Orders, characteristics and catalogs as JSON values.
-/
import StreamVerdict.Json.Parser
import StreamVerdict.Json.Wire
import StreamVerdict.Probe.Catalog

namespace StreamVerdict

open Wire

instance : Wire SourceOrder where
  encode o := .text o.name
  decode := oneOf (SourceOrder.all.map fun o => (o.name, o))

instance : Wire Characteristics where
  encode c := encode c.bits
  decode j := (decode j).map Characteristics.mk

instance : Wire TypeKind where
  encode k := .text k.name
  decode := oneOf (TypeKind.all.map fun k => (k.name, k))

instance : Wire Constructibility where
  encode c := .text c.name
  decode := oneOf (Constructibility.all.map fun c => (c.name, c))

instance : Wire MethodBehaviour where
  encode
    | .stream c => .obj [("returns", .text "stream"), ("characteristics", encode c)]
    | .returns t => .obj [("returns", .text "returns"), ("type_name", .text t)]
    | .void => .obj [("returns", .text "void")]
    | .throws reason => .obj [("returns", .text "throws"), ("reason", .text reason)]
  decode j := do
    match ← untag "returns" j with
    | ("stream", j) =>
      let r ← Record.read ["characteristics"] j
      return .stream (← r.required "characteristics")
    | ("returns", j) =>
      let r ← Record.read ["type_name"] j
      return .returns (← r.required "type_name")
    | ("void", j) =>
      noFields j
      return .void
    | ("throws", j) =>
      let r ← Record.read ["reason"] j
      return .throws (← r.required "reason")
    | _ => none

/-- Methods by their names. -/
abbrev MethodTable := List (String × MethodBehaviour)

instance : Wire MethodTable where
  encode t := .obj (t.map fun e => (e.1, encode e.2))
  decode := tableOf some decode

instance : Wire TypeDescriptor where
  encode d := .obj
    [ ("binary_name", encode d.binaryName), ("kind", encode d.kind),
      ("construction", encode d.construction), ("iterable", encode d.iterable),
      ("methods", encode (d.methods : MethodTable)) ]
  decode j := do
    let r ← Record.read ["binary_name", "kind", "construction", "iterable", "methods"] j
    let methods : MethodTable ← r.orElse "methods" []
    return { binaryName := ← r.required "binary_name"
             kind := ← r.required "kind"
             construction := ← r.required "construction"
             iterable := ← r.orElse "iterable" none
             methods }

/-- The catalog that a text lists. -/
def Catalog.ofText? (text : String) : Option Catalog := do
  let types : List TypeDescriptor ← decode (← Json.parse? text)
  return Catalog.empty.insertAll types

end StreamVerdict
