/-
  Points-to sets: the abstract objects that a value of a node may hold.
-/
import StreamVerdict.Body.Instruction
import StreamVerdict.CallGraph.Context
import StreamVerdict.Data.OrdSet

namespace StreamVerdict

/-- For some values of some nodes, the objects they may hold; all other sets are empty. -/
structure PointsTo where
  cells : List ((Nat × ValueNumber) × OrdSet Instance)
deriving DecidableEq

namespace PointsTo

def empty : PointsTo := ⟨[]⟩

/-- The objects that value `v` of node `n` may hold. -/
def get (p : PointsTo) (n : Nat) (v : ValueNumber) : OrdSet Instance :=
  (p.cells.lookup (n, v)).getD ∅

/-- Replaces one set. -/
def set (p : PointsTo) (n : Nat) (v : ValueNumber) (s : OrdSet Instance) : PointsTo :=
  ⟨((n, v), s) :: p.cells.filter fun c => c.1 ≠ (n, v)⟩

/-- Adds objects to one set. -/
def insertAll (p : PointsTo) (n : Nat) (v : ValueNumber) (is : List Instance) : PointsTo :=
  p.set n v ((p.get n v).insertAll is)

/-- Some of the objects are not in the set yet. -/
def lacks (p : PointsTo) (n : Nat) (v : ValueNumber) (is : List Instance) : Bool :=
  is.any fun i => i ∉ p.get n v

/-- The objects that some of the values may hold. -/
def union (p : PointsTo) (n : Nat) (vs : List ValueNumber) : List Instance :=
  vs.flatMap fun v => (p.get n v).toList

/-- All objects in any set. -/
def instances (p : PointsTo) : OrdSet Instance :=
  OrdSet.ofList (p.cells.flatMap fun c => c.2.toList)

end PointsTo
end StreamVerdict
