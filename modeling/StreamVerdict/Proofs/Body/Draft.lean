/-
  Bodies that come from a draft.

  A draft is written by starting it and issuing instructions, merges and constants one after
  the other.  The body that it becomes, if it can be finished, is made of its parts.  Bodies that
  come from drafts can be supplied by their methods.
-/
import StreamVerdict.Body.Draft
import StreamVerdict.Body.Store

namespace StreamVerdict

namespace Draft

/-- The drafts that can be written for a method. -/
inductive Written (method : MethodRef) (isStatic : Bool) : Draft → Prop where
  | start : Written method isStatic (Draft.start method isStatic)
  | newObject {d : Draft} (t : TypeRef) (line : UInt32) :
      Written method isStatic d → Written method isStatic (d.newObject t line).2
  | invoke {d : Draft} (target : MethodRef) (kind : Invocation) (args : List ValueNumber)
      (line : UInt32) :
      Written method isStatic d → Written method isStatic (d.invoke target kind args line).2
  | phi {d : Draft} (uses : List ValueNumber) :
      Written method isStatic d → Written method isStatic (d.phi uses).2
  | null {d : Draft} : Written method isStatic d → Written method isStatic d.null.2
  | ret {d : Draft} (value : Option ValueNumber) (line : UInt32) :
      Written method isStatic d → Written method isStatic (d.ret value line)

/-- A draft before it gets its parameters. -/
def blank (method : MethodRef) (isStatic : Bool) : Draft :=
  ⟨method, isStatic, [], [], [], SymbolTable.empty, 1, 0⟩

theorem start_eq_addParams (method : MethodRef) (isStatic : Bool) :
    start method isStatic =
      (parameterTypes method isStatic).foldl addParam (blank method isStatic) := rfl

/-- Parameters take the next values, and nothing is issued. -/
theorem addParams_spec (ts : List TypeName) (d : Draft) :
    (ts.foldl addParam d).params = d.params ++ List.range' d.nextValue ts.length ∧
      (ts.foldl addParam d).method = d.method ∧ (ts.foldl addParam d).isStatic = d.isStatic ∧
      (ts.foldl addParam d).instructions = d.instructions ∧ (ts.foldl addParam d).phis = d.phis ∧
      (ts.foldl addParam d).nextPc = d.nextPc := by
  induction ts generalizing d with
  | nil => exact ⟨(List.append_nil _).symm, rfl, rfl, rfl, rfl, rfl⟩
  | cons t ts ih =>
      obtain ⟨hparams, hkept⟩ := ih (d.addParam t)
      rw [List.foldl_cons]
      refine ⟨?_, hkept⟩
      rw [hparams, List.length_cons, List.range'_succ]
      show d.params ++ [d.nextValue] ++ List.range' (d.nextValue + 1) ts.length = _
      rw [List.append_assoc, List.singleton_append]

/-- Writing keeps the method that a draft was started for. -/
theorem Written.kept {method : MethodRef} {isStatic : Bool} {d : Draft}
    (h : Written method isStatic d) : d.method = method ∧ d.isStatic = isStatic := by
  induction h with
  | start =>
      obtain ⟨-, hmethod, hstatic, -⟩ :=
        addParams_spec (parameterTypes method isStatic) (blank method isStatic)
      exact ⟨hmethod, hstatic⟩
  | newObject _ _ _ ih => exact ih
  | invoke _ _ _ _ _ ih =>
      rw [Draft.invoke]
      split <;> exact ih
  | phi _ _ ih => exact ih
  | null _ ih => exact ih
  | ret _ _ _ ih => exact ih

/-- The body that a draft becomes if it can be finished. -/
def body (d : Draft) : Body :=
  ⟨d.method, d.isStatic, d.params, d.instructions, d.phis, d.symbols⟩

theorem finish_eq_ok {d : Draft} {b : Body} (h : d.finish = .ok b) : b = d.body := by
  rw [finish] at h
  rcases hread : d.reads.find? fun v => (d.symbols.get? v).isNone with _ | v
  · simp only [hread] at h
    rcases hphi : d.phis.find? d.onCycle with _ | phi
    · simp only [hphi, Except.ok.injEq] at h
      exact h.symm
    · simp [hphi] at h
  · simp [hread] at h

end Draft

/-- A merge or an instruction of the body defines the value. -/
def Body.Defines (b : Body) (v : ValueNumber) : Prop :=
  (∃ phi ∈ b.phis, phi.result = v) ∨ ∃ i ∈ b.instructions, i.result? = some v

/-- The body is what some draft became. -/
def Body.Drafted (b : Body) : Prop :=
  ∃ method isStatic d, Draft.Written method isStatic d ∧ d.finish = .ok b

/-! ### Supplied bodies -/

def Supply.bodies : Supply → List Body
  | .body b => [b]
  | .unavailable _ _ => []

/-- All bodies that the store holds. -/
def BodyStore.bodies (s : BodyStore) : List Body := s.supplies.flatMap Supply.bodies

theorem BodyStore.mem_bodies_of_request {s : BodyStore} {m : MethodRef} {b : Body}
    (h : s.request m = .ok (some b)) : b ∈ s.bodies := by
  rw [request] at h
  rcases hfind : s.supplies.find? fun x => x.method = m with _ | x
  · simp [hfind] at h
  · simp only [hfind] at h
    have hmem := List.mem_of_find?_eq_some hfind
    cases x with
    | body c =>
        cases h
        exact List.mem_flatMap.mpr ⟨_, hmem, List.mem_singleton.mpr rfl⟩
    | unavailable m' reason => cases h

/-- The bodies that the drafts become. -/
def BodyStore.ofDrafts (ds : List Draft) : BodyStore :=
  ⟨ds.filterMap fun d => d.finish.toOption.map Supply.body⟩

theorem BodyStore.drafted_of_request {ds : List Draft}
    (hds : ∀ d ∈ ds, ∃ method isStatic, Draft.Written method isStatic d) {m : MethodRef} {b : Body}
    (h : (ofDrafts ds).request m = .ok (some b)) : b.Drafted := by
  obtain ⟨x, hx, hb⟩ := List.mem_flatMap.mp (mem_bodies_of_request h)
  obtain ⟨d, hd, hfinish⟩ := List.mem_filterMap.mp hx
  obtain ⟨c, hc, rfl⟩ := Option.map_eq_some_iff.mp hfinish
  obtain rfl : b = c := List.mem_singleton.mp hb
  obtain ⟨method, isStatic, hwritten⟩ := hds d hd
  refine ⟨method, isStatic, d, hwritten, ?_⟩
  cases hok : d.finish with
  | error e =>
      rw [hok] at hc
      cases hc
  | ok b' =>
      rw [hok] at hc
      cases hc
      rfl

end StreamVerdict
