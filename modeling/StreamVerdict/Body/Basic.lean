/-
  Method bodies in single assignment form.

  The symbol table says what defines each value: a parameter, the null constant, an
  instruction or a merge.  A body that comes from a draft keeps the table in step with its
  instructions; one that comes from outside may not, so that every look-up can fail.
-/
import StreamVerdict.Body.Instruction
import StreamVerdict.Failure

namespace StreamVerdict

/-- What defines a value. -/
inductive Definition where
  /-- The receiver or a declared parameter. -/
  | param (index : Nat) (declaredType : TypeName)
  | null
  /-- The instruction at a position. -/
  | instruction (index : Nat)
  /-- The merge at a position. -/
  | phi (index : Nat)
deriving DecidableEq

/-- The definitions of values, in ascending order of the values. -/
structure SymbolTable where
  entries : List (ValueNumber × Definition)
  maxValue : ValueNumber
  ascending : entries.Pairwise fun e f => e.1 < f.1
deriving DecidableEq

namespace SymbolTable

def empty : SymbolTable := ⟨[], 0, .nil⟩

def get? (t : SymbolTable) (v : ValueNumber) : Option Definition := t.entries.lookup v

/-- Puts an entry in its place by value, in place of an earlier one of the same value. -/
def insertEntry (v : ValueNumber) (d : Definition) :
    List (ValueNumber × Definition) → List (ValueNumber × Definition)
  | [] => [(v, d)]
  | (w, e) :: rest =>
    if v < w then (v, d) :: (w, e) :: rest
    else if v = w then (v, d) :: rest
    else (w, e) :: insertEntry v d rest

theorem mem_insertEntry {entries : List (ValueNumber × Definition)} {v : ValueNumber}
    {d : Definition} {e : ValueNumber × Definition} (he : e ∈ insertEntry v d entries) :
    e = (v, d) ∨ e ∈ entries := by
  induction entries with
  | nil => exact Or.inl (List.mem_singleton.mp he)
  | cons f entries ih =>
      rw [insertEntry] at he
      split at he
      · exact List.mem_cons.mp he
      · split at he
        · rcases List.mem_cons.mp he with hnew | hold
          · exact Or.inl hnew
          · exact Or.inr (List.mem_cons_of_mem f hold)
        · rcases List.mem_cons.mp he with rfl | hrest
          · exact Or.inr List.mem_cons_self
          · exact (ih hrest).imp_right (List.mem_cons_of_mem f)

theorem pairwise_insertEntry {entries : List (ValueNumber × Definition)}
    (h : entries.Pairwise fun e f => e.1 < f.1) (v : ValueNumber) (d : Definition) :
    (insertEntry v d entries).Pairwise fun e f => e.1 < f.1 := by
  induction entries with
  | nil => exact List.pairwise_singleton _ (v, d)
  | cons f entries ih =>
      have habove : ∀ e ∈ entries, f.1 < e.1 := fun e he => List.rel_of_pairwise_cons h he
      rw [insertEntry]
      split
      · next hlt =>
        -- The new entry comes before the first, and so before all.
        refine List.Pairwise.cons ?_ h
        intro e he
        rcases List.mem_cons.mp he with rfl | hlater
        · exact hlt
        · exact Nat.lt_trans hlt (habove e hlater)
      · next hge =>
        split
        · next heq =>
          refine List.Pairwise.cons ?_ h.of_cons
          intro e he
          rw [heq]
          exact habove e he
        · next hne =>
          have hfirst : f.1 < v := Nat.lt_of_le_of_ne (Nat.le_of_not_lt hge) (Ne.symm hne)
          refine List.Pairwise.cons ?_ (ih h.of_cons)
          intro e he
          rcases mem_insertEntry he with rfl | hold
          · exact hfirst
          · exact habove e hold

/-- The table in which `d` defines `v`. -/
def define (t : SymbolTable) (v : ValueNumber) (d : Definition) : SymbolTable :=
  ⟨insertEntry v d t.entries, max t.maxValue v, pairwise_insertEntry t.ascending v d⟩

/-- The given entries, each put in its place. -/
def sort (given : List (ValueNumber × Definition)) : List (ValueNumber × Definition) :=
  given.foldl (fun sorted e => insertEntry e.1 e.2 sorted) []

theorem pairwise_sort (given : List (ValueNumber × Definition)) :
    (sort given).Pairwise fun e f => e.1 < f.1 := by
  refine List.foldlRecOn given _ (motive := fun sorted : List (ValueNumber × Definition) =>
    sorted.Pairwise fun e f => e.1 < f.1) .nil ?_
  intro sorted hsorted e _
  exact pairwise_insertEntry hsorted e.1 e.2

/-- The table of entries that are given in any order; the last of a value counts. -/
def ofEntries (given : List (ValueNumber × Definition)) (maxValue : ValueNumber) : SymbolTable :=
  ⟨sort given, maxValue, pairwise_sort given⟩

def isNull (t : SymbolTable) (v : ValueNumber) : Bool := t.get? v = some .null

def size (t : SymbolTable) : Nat := t.entries.length

end SymbolTable

/-- Why a body could not be made or supplied. -/
inductive BodyError where
  | unavailable (method : MethodRef) (reason : String)
  | undefinedValue (method : MethodRef) (value : ValueNumber)
  | cyclicPhi (method : MethodRef) (value : ValueNumber)
  | parameterOutOfRange (method : MethodRef) (index : Nat)
deriving DecidableEq

namespace BodyError

def message : BodyError → String
  | unavailable m reason => "No IR available for " ++ m.signature ++ ": " ++ reason
  | undefinedValue m v =>
    "Value v" ++ toString v ++ " used in " ++ m.signature ++ " is never defined"
  | cyclicPhi m v => "Phi v" ++ toString v ++ " in " ++ m.signature ++ " depends on itself"
  | parameterOutOfRange m i =>
    "Parameter index " ++ toString i ++ " out of range for " ++ m.signature

def label : BodyError → String
  | unavailable _ _ => "Unavailable"
  | undefinedValue _ _ => "UndefinedValue"
  | cyclicPhi _ _ => "CyclicPhi"
  | parameterOutOfRange _ _ => "ParameterOutOfRange"

instance : Explained BodyError := ⟨label, message⟩

def toAnalysisError (e : BodyError) : AnalysisError :=
  AnalysisError.ofCause .bodyConstruction e.message

end BodyError

/-- The body of a method. -/
structure Body where
  method : MethodRef
  isStatic : Bool
  /-- The values of the parameters, the receiver first in instance methods. -/
  params : List ValueNumber
  instructions : List Instruction
  phis : List Phi
  symbols : SymbolTable
deriving DecidableEq

namespace Body

/-- The instruction that defines a value. -/
def definingInstruction? (b : Body) (v : ValueNumber) : Option Instruction :=
  match b.symbols.get? v with
  | some (.instruction i) => b.instructions[i]?
  | _ => none

/-- The merge that defines a value. -/
def phi? (b : Body) (v : ValueNumber) : Option Phi :=
  match b.symbols.get? v with
  | some (.phi i) => b.phis[i]?
  | _ => none

def callSites (b : Body) : List CallSite := b.instructions.filterMap Instruction.callSite?

def newSites (b : Body) : List NewSite := b.instructions.filterMap Instruction.newSite?

/-- The call with the given program counter. -/
def invokeAt? (b : Body) (pc : Nat) : Option Instruction :=
  b.instructions.find? fun i => i.callSite?.any fun s => s.programCounter = pc

/-- The values that the method may return. -/
def returnValues (b : Body) : List ValueNumber := b.instructions.filterMap Instruction.returned?

/-- From each value that a merge defines to the values it merges. -/
def phiLinks (b : Body) : List (ValueNumber × List ValueNumber) :=
  b.symbols.entries.filterMap fun e => (b.phi? e.1).map fun p => (e.1, p.uses)

end Body
end StreamVerdict
