/-
  Source locations, bindings, creation sites and class scopes as JSON values.
-/
import StreamVerdict.Hierarchy.Class
import StreamVerdict.Source.CreationSite
import StreamVerdict.Wire.Jvm

namespace StreamVerdict

open Wire

instance : Wire Span where
  encode s := .obj
    [ ("start_line", encode s.startLine), ("start_col", encode s.startCol),
      ("end_line", encode s.endLine), ("end_col", encode s.endCol) ]
  decode j := do
    let r ← Record.read ["start_line", "start_col", "end_line", "end_col"] j
    return ⟨← r.required "start_line", ← r.required "start_col", ← r.required "end_line",
      ← r.required "end_col"⟩

instance : Wire SourceLocation where
  encode l := .obj [("file_path", encode l.filePath), ("span", encode l.span)]
  decode j := do
    let r ← Record.read ["file_path", "span"] j
    return ⟨← r.required "file_path", ← r.required "span"⟩

instance : Wire ProjectId where
  encode p := .text p.name
  decode j := (decode j).map ProjectId.mk

instance : Wire TypeBinding where
  encode t := .obj [("binary_name", encode t.binaryName)]
  decode j := do
    let r ← Record.read ["binary_name"] j
    return ⟨← r.required "binary_name"⟩

instance : Wire MethodBinding where
  encode m := .obj
    [ ("declaring_type", encode m.declaringType), ("name", encode m.name),
      ("parameter_types", encode m.parameterTypes), ("return_type", encode m.returnType),
      ("is_static", encode m.isStatic), ("loader", encode m.loader) ]
  decode j := do
    let r ← Record.read
      ["declaring_type", "name", "parameter_types", "return_type", "is_static", "loader"] j
    return ⟨← r.required "declaring_type", ← r.required "name", ← r.required "parameter_types",
      ← r.required "return_type", ← r.required "is_static", ← r.orElse "loader" .primordial⟩

instance : Wire MethodDeclaration where
  encode d := .obj [("binding", encode d.binding), ("span", encode d.span)]
  decode j := do
    let r ← Record.read ["binding", "span"] j
    return ⟨← r.required "binding", ← r.required "span"⟩

instance : Wire CreationSite where
  encode s := .obj
    [ ("project", encode s.project), ("file_path", encode s.filePath), ("text", encode s.text),
      ("method", encode s.method), ("expression_type", encode s.expressionType),
      ("result_type", encode s.resultType), ("name_line", encode s.nameLine),
      ("span", encode s.span), ("enclosing", encode s.enclosing) ]
  decode j := do
    let r ← Record.read
      ["project", "file_path", "text", "method", "expression_type", "result_type", "name_line",
        "span", "enclosing"] j
    return { project := ← r.required "project"
             filePath := ← r.required "file_path"
             text := ← r.required "text"
             method := ← r.required "method"
             expressionType := ← r.optional "expression_type"
             resultType := ← r.required "result_type"
             nameLine := ← r.required "name_line"
             span := ← r.required "span"
             enclosing := ← r.required "enclosing" }

/-! ### Classes -/

instance : Wire DeclaredMethod where
  encode d := .obj
    [ ("method", encode d.method), ("is_abstract", encode d.isAbstract),
      ("is_static", encode d.isStatic) ]
  decode j := do
    let r ← Record.read ["method", "is_abstract", "is_static"] j
    return ⟨← r.required "method", ← r.required "is_abstract", ← r.required "is_static"⟩

instance : Wire ClassInfo where
  encode c := .obj
    [ ("type_ref", encode c.typeRef), ("super_class", encode c.superClass),
      ("interfaces", encode c.interfaces), ("is_interface", encode c.isInterface),
      ("is_abstract", encode c.isAbstract), ("methods", encode c.methods) ]
  decode j := do
    let r ← Record.read
      ["type_ref", "super_class", "interfaces", "is_interface", "is_abstract", "methods"] j
    return ⟨← r.required "type_ref", ← r.optional "super_class", ← r.required "interfaces",
      ← r.required "is_interface", ← r.required "is_abstract", ← r.required "methods"⟩

instance : Wire Scope where
  encode s := .obj
    [ ("project", encode s.project), ("classes", encode s.classes),
      ("exclusions", encode s.exclusions) ]
  decode j := do
    let r ← Record.read ["project", "classes", "exclusions"] j
    return ⟨← r.required "project", ← r.required "classes", ← r.orElse "exclusions" []⟩

end StreamVerdict
