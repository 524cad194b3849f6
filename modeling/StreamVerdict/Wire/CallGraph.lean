/-
  Calling contexts, abstract objects and protocol states as JSON values.
-/
import StreamVerdict.CallGraph.Context
import StreamVerdict.Typestate.Protocol
import StreamVerdict.Wire.Jvm

namespace StreamVerdict

open Wire

instance : Wire Frame where
  encode f := .obj [("call_site", encode f.callSite), ("method", encode f.method)]
  decode j := do
    let r ← Record.read ["call_site", "method"] j
    return ⟨← r.required "call_site", ← r.required "method"⟩

instance : Wire CallString where
  encode cs := .obj [("frames", encode cs.frames)]
  decode j := do
    let r ← Record.read ["frames"] j
    return ⟨← r.required "frames"⟩

instance : Wire Allocation where
  encode
    | .new m site => .obj [("kind", .text "new"), ("method", encode m), ("site", encode site)]
    | .synthetic t => .obj [("kind", .text "synthetic"), ("concrete_type", encode t)]
  decode j := do
    match ← untag "kind" j with
    | ("new", j) =>
      let r ← Record.read ["method", "site"] j
      return .new (← r.required "method") (← r.required "site")
    | ("synthetic", j) =>
      let r ← Record.read ["concrete_type"] j
      return .synthetic (← r.required "concrete_type")
    | _ => none

instance : Wire Instance where
  encode i := .obj
    [("allocation", encode i.allocation), ("heap_context", encode i.heapContext)]
  decode j := do
    let r ← Record.read ["allocation", "heap_context"] j
    return ⟨← r.required "allocation", ← r.required "heap_context"⟩

instance : Wire Context where
  encode c := .obj [("call_string", encode c.callString), ("receiver", encode c.receiver)]
  decode j := do
    let r ← Record.read ["call_string", "receiver"] j
    return ⟨← r.required "call_string", ← r.optional "receiver"⟩

instance : Wire State where
  encode s := .obj [("name", encode s.name)]
  decode j := do
    let r ← Record.read ["name"] j
    return ⟨← r.required "name"⟩

instance : Wire Action where
  encode a := .obj [("method_name", encode a.name)]
  decode j := do
    let r ← Record.read ["method_name"] j
    return ⟨← r.required "method_name"⟩

end StreamVerdict
