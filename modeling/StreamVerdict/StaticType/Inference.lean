/-
  The types that a value may have.

  An oracle gives a type to every value that no merge defines; a merge has the types of the
  values that it merges.  The oracle of a body reads declared types: an allocation is exact,
  a parameter or the result of a call is its declared type or below.
-/
import StreamVerdict.Body.Basic
import StreamVerdict.Data.Reach
import StreamVerdict.Hierarchy.Basic
import StreamVerdict.StaticType.Basic

namespace StreamVerdict
namespace StaticType

/-- The values without a merge from which `v` may come. -/
def sources (b : Body) (v : ValueNumber) : List ValueNumber :=
  (Reach.visit b.phiLinks [v]).filter fun w => (b.phi? w).isNone

/-- All types that `v` may have when the oracle types what is not a merge. -/
def possible (b : Body) (oracle : ValueNumber → StaticType) (v : ValueNumber) : OrdSet StaticType :=
  OrdSet.ofList ((sources b v).map oracle)

/-- The values of a declared type: the type itself if it is primitive, else all below it. -/
def ofDeclared (h : Hierarchy) (t : TypeName) : StaticType :=
  if t.isPrimitive then .point ⟨.primordial, t⟩
  else .cone ⟨(h.loader? t).getD .primordial, t⟩

/-- The declared type of a value. -/
def declared (h : Hierarchy) (b : Body) (v : ValueNumber) : StaticType :=
  match b.symbols.get? v with
  | some (.param _ t) => ofDeclared h t
  | some (.instruction i) =>
    match b.instructions[i]? with
    | some (.new _ _ site _) => .point site.declaredType
    | some (.invoke _ _ _ site _) => ofDeclared h site.declaredTarget.returnType
    | _ => .top
  | _ => .top

/-- All types that `v` may have by declaration; there has to be one. -/
def resolve (h : Hierarchy) (b : Body) (v : ValueNumber) :
    Except AnalysisError (OrdSet StaticType) :=
  let types := possible b (declared h b) v
  if types.isEmpty then
    .error
      { kind := .typeResolution
        message := "No possible types for v" ++ toString v ++ " in " ++ b.method.signature }
  else .ok types

end StaticType
end StreamVerdict
