/-
  Types, methods and places in code as JSON values.
-/
import StreamVerdict.Json.Wire
import StreamVerdict.Jvm.Method
import StreamVerdict.StaticType.Basic

namespace StreamVerdict

open Wire

namespace Loader

/-- The names of the loaders in exchanged data. -/
def wireNames : List (String × Loader) :=
  [ ("primordial", primordial), ("extension", extension), ("application", application),
    ("synthetic", synthetic) ]

def wireName : Loader → String
  | primordial => "primordial"
  | extension => "extension"
  | application => "application"
  | synthetic => "synthetic"

instance : Wire Loader where
  encode l := .text l.wireName
  decode := oneOf wireNames

end Loader

instance : Wire TypeName where
  encode t := .text t.internal
  decode j := (decode j).map TypeName.mk

instance : Wire TypeRef where
  encode t := .obj [("loader", encode t.loader), ("name", encode t.name)]
  decode j := do
    let r ← Record.read ["loader", "name"] j
    return ⟨← r.required "loader", ← r.required "name"⟩

instance : Wire MethodRef where
  encode m := .obj
    [ ("declaring_class", encode m.declaringClass), ("name", encode m.name),
      ("parameter_types", encode m.parameterTypes), ("return_type", encode m.returnType) ]
  decode j := do
    let r ← Record.read ["declaring_class", "name", "parameter_types", "return_type"] j
    return ⟨← r.required "declaring_class", ← r.required "name", ← r.required "parameter_types",
      ← r.required "return_type"⟩

namespace Invocation

def all : List Invocation := [virtual, interface, special, static]

instance : Wire Invocation where
  encode k := .text k.name
  decode := oneOf (all.map fun k => (k.name, k))

end Invocation

instance : Wire CallSite where
  encode s := .obj
    [ ("program_counter", .nat s.programCounter), ("declared_target", encode s.declaredTarget),
      ("kind", encode s.kind) ]
  decode j := do
    let r ← Record.read ["program_counter", "declared_target", "kind"] j
    return ⟨← r.requiredBy word32 "program_counter", ← r.required "declared_target",
      ← r.required "kind"⟩

instance : Wire NewSite where
  encode s := .obj
    [("program_counter", .nat s.programCounter), ("declared_type", encode s.declaredType)]
  decode j := do
    let r ← Record.read ["program_counter", "declared_type"] j
    return ⟨← r.requiredBy word32 "program_counter", ← r.required "declared_type"⟩

instance : Wire StaticType where
  encode
    | .top => .obj [("kind", .text "top")]
    | .point t => .obj [("kind", .text "point"), ("type", encode t)]
    | .cone t => .obj [("kind", .text "cone"), ("type", encode t)]
  decode j := do
    match ← tagAndContent "kind" "type" j with
    | ("top", none) => return .top
    | ("top", some .null) => return .top
    | ("point", some t) => return .point (← decode t)
    | ("cone", some t) => return .cone (← decode t)
    | _ => none

end StreamVerdict
