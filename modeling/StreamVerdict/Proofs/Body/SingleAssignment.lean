/-
  Drafts keep their tables in step.

  The parts of a body say what defines a value: the types of the parameters, the instructions and
  the merges.  The symbol table says it again, value by value.  Every operation of a draft changes
  both at once, so that the table can be trusted at every point: values are numbered without gaps
  and defined once, and looking up a value, or a program counter, finds the one instruction or
  merge that it belongs to.  As there are no gaps, the numbers fit for as long as there are not
  too many of them.
-/
import Mathlib.Data.List.Pairwise
import Mathlib.Data.List.Perm.Subperm
import StreamVerdict.Proofs.Body.Draft
import StreamVerdict.Proofs.Body.Symbols
import StreamVerdict.Proofs.Body.Widths

namespace StreamVerdict

/-- The last member of a list is at the position that the list had before as its length. -/
theorem getElem?_concat_eq_some {α : Type} {l : List α} {a x : α} {i : Nat} :
    (l ++ [a])[i]? = some x ↔ (i = l.length ∧ x = a) ∨ l[i]? = some x := by
  rcases Nat.lt_trichotomy i l.length with hlt | rfl | hgt
  · rw [List.getElem?_append_left hlt]
    simp [Nat.ne_of_lt hlt]
  · simp [eq_comm]
  · have hout : l[i]? = none := List.getElem?_eq_none (Nat.le_of_lt hgt)
    have hout' : (l ++ [a])[i]? = none := by
      apply List.getElem?_eq_none
      rw [List.length_append, List.length_singleton]
      omega
    rw [hout, hout']
    simp [Nat.ne_of_gt hgt]

/-- The program counter of an allocation or a call. -/
def Instruction.programCounter? : Instruction → Option Nat
  | new _ _ site _ => some site.programCounter
  | invoke _ _ _ site _ => some site.programCounter
  | ret _ _ _ => none

/-- The instructions share no program counter. -/
def Instruction.Apart (i j : Instruction) : Prop :=
  ∀ pc, i.programCounter? = some pc → j.programCounter? ≠ some pc

instance : Std.Symm Instruction.Apart := ⟨fun _ _ hij pc hj hi => hij pc hi hj⟩

namespace Body

variable {b : Body} {v : ValueNumber}

/-- The parts of a body give a definition to a value: parameters are numbered from one in the
    order of their types, and an instruction or a merge defines its result.  No part gives the
    null constant. -/
def Gives (b : Body) (v : ValueNumber) : Definition → Prop
  | .param i t => v = i + 1 ∧ (Draft.parameterTypes b.method b.isStatic)[i]? = some t
  | .null => False
  | .instruction i => ∃ ins, b.instructions[i]? = some ins ∧ ins.result? = some v
  | .phi j => ∃ p, b.phis[j]? = some p ∧ p.result = v

/-- The program counters of allocations and calls, in program order. -/
def counters (b : Body) : List Nat := b.instructions.filterMap Instruction.programCounter?

theorem counters_concat {b' : Body} {ins : Instruction}
    (h : b'.instructions = b.instructions ++ [ins]) :
    b'.counters = b.counters ++ ins.programCounter?.toList := by
  rw [counters, h, List.filterMap_append, counters]
  cases hpc : ins.programCounter? <;> simp [hpc]

/-- Every value is defined once, and the symbol table and the parts of the body agree by what. -/
structure SingleAssignment (b : Body) : Prop where
  /-- The table defines the values from one to the largest, each once. -/
  gapless : b.symbols.Gapless
  params : b.params = List.range' 1 (Draft.parameterTypes b.method b.isStatic).length
  /-- The null constant apart, a value has the definition that the parts give. -/
  defined : ∀ v d, d ≠ .null → (b.symbols.get? v = some d ↔ b.Gives v d)
  index : ∀ (i : Nat) (ins : Instruction), b.instructions[i]? = some ins → ins.index = i
  /-- Program counters count up from zero. -/
  counters : b.counters = List.range b.counters.length

theorem length_counters_le (b : Body) : b.counters.length ≤ b.instructions.length :=
  List.length_filterMap_le ..

namespace SingleAssignment

/-! ### What an operation adds -/

/-- One more instruction, with a table that knows its result, if it has one. -/
theorem issue (h : b.SingleAssignment) {ins : Instruction} {t : SymbolTable}
    (hindex : ins.index = b.instructions.length)
    (hpc : ∀ pc, ins.programCounter? = some pc → pc = b.counters.length) (ht : t.Gapless)
    (hget : ∀ v d, t.get? v = some d ↔
      (ins.result? = some v ∧ d = .instruction b.instructions.length) ∨
        b.symbols.get? v = some d) :
    ({ b with instructions := b.instructions ++ [ins], symbols := t } : Body).SingleAssignment where
  gapless := ht
  params := h.params
  defined := by
    intro v d hd
    rw [hget, h.defined v d hd]
    cases d with
    | param i t => simp [Gives]
    | null => exact absurd rfl hd
    | phi j => simp [Gives]
    | instruction i =>
        simp only [Gives, getElem?_concat_eq_some, Definition.instruction.injEq]
        constructor
        · rintro (⟨hresult, hi⟩ | ⟨old, hold, hresult⟩)
          · exact ⟨ins, Or.inl ⟨hi, rfl⟩, hresult⟩
          · exact ⟨old, Or.inr hold, hresult⟩
        · rintro ⟨x, ⟨hi, rfl⟩ | hold, hresult⟩
          · exact Or.inl ⟨hresult, hi⟩
          · exact Or.inr ⟨x, hold, hresult⟩
  index := by
    intro i x hx
    rcases getElem?_concat_eq_some.mp hx with ⟨rfl, rfl⟩ | hold
    · exact hindex
    · exact h.index i x hold
  counters := by
    rw [counters_concat (b := b) rfl, List.length_append]
    cases hcounter : ins.programCounter? with
    | none =>
        rw [Option.toList_none, List.append_nil, List.length_nil, Nat.add_zero]
        exact h.counters
    | some pc =>
        -- The instruction takes the counter that comes after those before it.
        rw [Option.toList_some, List.length_singleton, List.range_succ, ← h.counters,
          hpc pc hcounter]

/-- One more merge, with its result in the table. -/
theorem merge (h : b.SingleAssignment) (hv : v = b.symbols.maxValue + 1)
    (uses : List ValueNumber) :
    ({ b with
        phis := b.phis ++ [⟨v, uses⟩]
        symbols := b.symbols.define v (.phi b.phis.length) } : Body).SingleAssignment where
  gapless := hv ▸ h.gapless.define _
  params := h.params
  defined := by
    intro w d hd
    subst hv
    rw [h.gapless.get?_define_next, h.defined w d hd]
    cases d with
    | param i t => simp [Gives]
    | null => exact absurd rfl hd
    | instruction i => simp [Gives]
    | phi j =>
        simp only [Gives, getElem?_concat_eq_some, Definition.phi.injEq]
        constructor
        · rintro (⟨rfl, hj⟩ | ⟨old, hold, hresult⟩)
          · exact ⟨_, Or.inl ⟨hj, rfl⟩, rfl⟩
          · exact ⟨old, Or.inr hold, hresult⟩
        · rintro ⟨p, ⟨hj, rfl⟩ | hold, hresult⟩
          · exact Or.inl ⟨hresult.symm, hj⟩
          · exact Or.inr ⟨p, hold, hresult⟩
  index := h.index
  counters := h.counters

/-- One more null constant. -/
theorem null (h : b.SingleAssignment) (hv : v = b.symbols.maxValue + 1) :
    ({ b with symbols := b.symbols.define v .null } : Body).SingleAssignment where
  gapless := hv ▸ h.gapless.define _
  params := h.params
  defined := by
    intro w d hd
    subst hv
    rw [h.gapless.get?_define_next]
    refine Iff.trans ?_ (h.defined w d hd)
    simp [hd]
  index := h.index
  counters := h.counters

/-! ### Look-ups -/

theorem get?_param (h : b.SingleAssignment) (hv : v ∈ b.params) :
    ∃ i t, b.symbols.get? v = some (.param i t) := by
  rw [h.params, List.mem_range'] at hv
  obtain ⟨i, hi, hv⟩ := hv
  refine ⟨i, _, (h.defined v (.param i _) nofun).mpr ⟨?_, List.getElem?_eq_getElem hi⟩⟩
  rw [hv, Nat.one_mul, Nat.add_comm]

/-- The instruction that defines a value is the one whose result it is. -/
theorem definingInstruction?_iff (h : b.SingleAssignment) {ins : Instruction} :
    b.definingInstruction? v = some ins ↔ ins ∈ b.instructions ∧ ins.result? = some v := by
  constructor
  · intro hdef
    rw [definingInstruction?] at hdef
    split at hdef
    · next i hget =>
      obtain ⟨x, hx, hresult⟩ := (h.defined v (.instruction i) nofun).mp hget
      obtain rfl : x = ins := Option.some.inj (hx.symm.trans hdef)
      exact ⟨List.mem_of_getElem? hx, hresult⟩
    · cases hdef
  · rintro ⟨hmem, hresult⟩
    obtain ⟨i, hi⟩ := List.mem_iff_getElem?.mp hmem
    have hget := (h.defined v (.instruction i) nofun).mpr ⟨ins, hi, hresult⟩
    rw [definingInstruction?, hget]
    exact hi

/-- The merge that defines a value is the one whose result it is. -/
theorem phi?_iff (h : b.SingleAssignment) {p : Phi} :
    b.phi? v = some p ↔ p ∈ b.phis ∧ p.result = v := by
  constructor
  · intro hphi
    rw [phi?] at hphi
    split at hphi
    · next j hget =>
      obtain ⟨q, hq, hresult⟩ := (h.defined v (.phi j) nofun).mp hget
      obtain rfl : q = p := Option.some.inj (hq.symm.trans hphi)
      exact ⟨List.mem_of_getElem? hq, hresult⟩
    · cases hphi
  · rintro ⟨hmem, hresult⟩
    obtain ⟨j, hj⟩ := List.mem_iff_getElem?.mp hmem
    have hget := (h.defined v (.phi j) nofun).mpr ⟨p, hj, hresult⟩
    rw [phi?, hget]
    exact hj

theorem apart (h : b.SingleAssignment) : b.instructions.Pairwise Instruction.Apart := by
  have hnodup : b.counters.Nodup := h.counters ▸ List.nodup_range
  refine (List.pairwise_filterMap.mp hnodup).imp ?_
  intro i j hne pc hi hj
  exact hne pc hi pc hj rfl

/-- The call at a program counter is the one that took it. -/
theorem invokeAt?_iff (h : b.SingleAssignment) {pc : Nat} {ins : Instruction} :
    b.invokeAt? pc = some ins ↔
      ins ∈ b.instructions ∧ ∃ site, ins.callSite? = some site ∧ site.programCounter = pc := by
  have hany : ∀ x : Instruction, (x.callSite?.any fun s => s.programCounter = pc) = true ↔
      ∃ site, x.callSite? = some site ∧ site.programCounter = pc := by
    intro x
    cases x.callSite? <;> simp
  have hcounter : ∀ x : Instruction, (∃ site, x.callSite? = some site ∧ site.programCounter = pc) →
      x.programCounter? = some pc := by
    rintro x ⟨site, hsite, hpc⟩
    cases x <;> simp_all [Instruction.callSite?, Instruction.programCounter?]
  have hfound : ∀ x : Instruction, b.invokeAt? pc = some x →
      x ∈ b.instructions ∧ ∃ site, x.callSite? = some site ∧ site.programCounter = pc := by
    intro x hfind
    rw [invokeAt?] at hfind
    have hsite := List.find?_some hfind
    exact ⟨List.mem_of_find?_eq_some hfind, (hany x).mp hsite⟩
  refine ⟨hfound ins, ?_⟩
  rintro ⟨hmem, hsite⟩
  cases hfind : b.invokeAt? pc with
  | none => exact absurd ((hany ins).mpr hsite) (List.find?_eq_none.mp hfind ins hmem)
  | some x =>
      -- The search stops at the first call with the counter; there is no other.
      obtain ⟨hx, hxsite⟩ := hfound x hfind
      by_contra hne
      exact h.apart.forall hx hmem (fun heq => hne (heq ▸ rfl)) pc (hcounter x hxsite)
        (hcounter ins hsite)

/-- No two calls of a body have the same call site. -/
theorem nodup_callSites (h : b.SingleAssignment) : b.callSites.Nodup := by
  rw [callSites, List.Nodup, List.pairwise_filterMap]
  refine h.apart.imp ?_
  rintro i j hapart site hi _ hj rfl
  cases i with
  | invoke i r args s line =>
      cases j with
      | invoke j r' args' s' line' =>
          cases hi
          cases hj
          exact hapart site.programCounter rfl rfl
      | new _ _ _ _ => cases hj
      | ret _ _ _ => cases hj
  | new _ _ _ _ => cases hi
  | ret _ _ _ => cases hi

/-! ### Widths -/

/-- Values are numbers up to the number of values. -/
theorem size_symbols (h : b.SingleAssignment) : b.symbols.size = b.symbols.maxValue := by
  have hlength := congrArg List.length h.gapless
  rwa [List.length_map, List.length_range'] at hlength

theorem le_size (h : b.SingleAssignment) {d : Definition} (hd : b.symbols.get? v = some d) :
    v ≤ b.symbols.size := by
  have hv : (b.symbols.get? v).isSome := by rw [hd]; rfl
  rw [h.size_symbols]
  exact ((h.gapless.isSome_get?_iff v).mp hv).2

theorem counter_lt (h : b.SingleAssignment) {ins : Instruction} (hins : ins ∈ b.instructions)
    {pc : Nat} (hpc : ins.programCounter? = some pc) : pc < b.instructions.length := by
  have hmem : pc ∈ b.counters := List.mem_filterMap.mpr ⟨ins, hins, hpc⟩
  rw [h.counters, List.mem_range] at hmem
  exact Nat.lt_of_lt_of_le hmem b.length_counters_le

/-- There are not more merges than values: no two merges have the same result. -/
theorem length_phis_le (h : b.SingleAssignment) : b.phis.length ≤ b.symbols.size := by
  have hget : ∀ j p, b.phis[j]? = some p → b.symbols.get? p.result = some (.phi j) :=
    fun j p hj => (h.defined p.result (.phi j) nofun).mpr ⟨p, hj, rfl⟩
  have hnodup : (b.phis.map Phi.result).Nodup := by
    rw [List.Nodup, List.pairwise_map, List.pairwise_iff_getElem]
    intro i j hi hj hlt hsame
    have hfirst := hget i _ (List.getElem?_eq_getElem hi)
    rw [hsame, hget j _ (List.getElem?_eq_getElem hj)] at hfirst
    cases hfirst
    exact Nat.lt_irrefl i hlt
  have hsub : b.phis.map Phi.result ⊆ b.symbols.entries.map Prod.fst := by
    intro v hv
    obtain ⟨p, hp, rfl⟩ := List.mem_map.mp hv
    obtain ⟨j, hj⟩ := List.mem_iff_getElem?.mp hp
    exact List.mem_map_of_mem (mem_of_lookup (hget j p hj))
  have hle := (hnodup.subperm hsub).length_le
  rwa [List.length_map, List.length_map] at hle

theorem instruction_fits (h : b.SingleAssignment) (hsize : b.symbols.size < UInt32.size)
    (hinstructions : b.instructions.length ≤ UInt32.size) {ins : Instruction}
    (hins : ins ∈ b.instructions) (huses : ∀ v ∈ ins.uses, v < UInt32.size) : ins.Fits := by
  obtain ⟨i, hi⟩ := List.mem_iff_getElem?.mp hins
  have hindex : ins.index < UInt64.size := by
    rw [h.index i ins hi]
    exact Nat.lt_of_lt_of_le (List.getElem?_eq_some_iff.mp hi).1
      (Nat.le_trans hinstructions (by decide))
  have hresult : ∀ v, ins.result? = some v → v < UInt32.size := by
    intro v hv
    have hget := (h.defined v (.instruction i) nofun).mpr ⟨ins, hi, hv⟩
    exact Nat.lt_of_le_of_lt (h.le_size hget) hsize
  have hcounter : ∀ pc, ins.programCounter? = some pc → pc < UInt32.size := by
    intro pc hpc
    exact Nat.lt_of_lt_of_le (h.counter_lt hins hpc) hinstructions
  cases ins with
  | new j v site line => exact ⟨hindex, hresult v rfl, hcounter _ rfl⟩
  | invoke j v args site line => exact ⟨hindex, fun w hw => hresult w hw, huses, hcounter _ rfl⟩
  | ret j v line => exact ⟨hindex, fun w hw => huses w (Option.mem_toList.mpr hw)⟩

theorem definition_fits (h : b.SingleAssignment) (hsize : b.symbols.size < UInt32.size)
    (hinstructions : b.instructions.length ≤ UInt32.size) {d : Definition}
    (hd : b.symbols.get? v = some d) : d.Fits := by
  have hwide : ∀ {i n : Nat}, i < n → n ≤ UInt32.size → i < UInt64.size := fun hi hn =>
    Nat.lt_of_lt_of_le hi (Nat.le_trans hn (by decide))
  cases d with
  | null => exact trivial
  | param i t =>
      obtain ⟨rfl, -⟩ := (h.defined v (.param i t) nofun).mp hd
      exact hwide (h.le_size hd) (Nat.le_of_lt hsize)
  | instruction i =>
      obtain ⟨ins, hi, -⟩ := (h.defined v (.instruction i) nofun).mp hd
      exact hwide (List.getElem?_eq_some_iff.mp hi).1 hinstructions
  | phi j =>
      obtain ⟨p, hp, -⟩ := (h.defined v (.phi j) nofun).mp hd
      exact hwide (List.getElem?_eq_some_iff.mp hp).1
        (Nat.le_trans h.length_phis_le (Nat.le_of_lt hsize))

/-- A body with fewer values and not more instructions than there are words of 32 bits fits, if
    the values that it reads are such words. -/
theorem fits (h : b.SingleAssignment) (hsize : b.symbols.size < UInt32.size)
    (hinstructions : b.instructions.length ≤ UInt32.size)
    (hreads : ∀ v ∈ b.instructions.flatMap Instruction.uses ++ b.phis.flatMap Phi.uses,
      v < UInt32.size) : b.Fits := by
  simp only [List.mem_append, List.mem_flatMap] at hreads
  have hdefined : ∀ {v d}, b.symbols.get? v = some d → v < UInt32.size := fun hd =>
    Nat.lt_of_le_of_lt (h.le_size hd) hsize
  refine ⟨?_, ?_, ?_, ?_, ?_⟩
  · intro v hv
    obtain ⟨i, t, hparam⟩ := h.get?_param hv
    exact hdefined hparam
  · intro ins hins
    exact h.instruction_fits hsize hinstructions hins fun v hv => hreads v (Or.inl ⟨ins, hins, hv⟩)
  · intro p hp
    obtain ⟨j, hj⟩ := List.mem_iff_getElem?.mp hp
    exact ⟨hdefined ((h.defined p.result (.phi j) nofun).mpr ⟨p, hj, rfl⟩),
      fun v hv => hreads v (Or.inr ⟨p, hp, hv⟩)⟩
  · intro e he
    have hget : b.symbols.get? e.1 = some e.2 := lookup_of_mem b.symbols.nodup_values he
    exact ⟨hdefined hget, h.definition_fits hsize hinstructions hget⟩
  · rw [← h.size_symbols]
    exact hsize

end SingleAssignment
end Body

/-! ### Drafts -/

namespace Draft

variable {method : MethodRef} {isStatic : Bool} {d : Draft}

/-- The tables agree, and the counters of the draft are those that come next. -/
structure InStep (d : Draft) : Prop where
  tables : d.body.SingleAssignment
  nextValue : d.nextValue = d.symbols.maxValue + 1
  nextPc : d.nextPc = d.body.counters.length

/-- Parameters take the next values, one after the other. -/
theorem addParams_symbols (ts : List TypeName) (hgapless : d.symbols.Gapless)
    (hnext : d.nextValue = d.symbols.maxValue + 1) :
    (ts.foldl addParam d).symbols.Gapless ∧
      (ts.foldl addParam d).nextValue = (ts.foldl addParam d).symbols.maxValue + 1 ∧
      ∀ v e, (ts.foldl addParam d).symbols.get? v = some e ↔
        d.symbols.get? v = some e ∨
          ∃ i t, ts[i]? = some t ∧ v = d.nextValue + i ∧ e = .param (d.params.length + i) t := by
  induction ts generalizing d with
  | nil => simp [hgapless, hnext]
  | cons t ts ih =>
      have hgapless' : (d.addParam t).symbols.Gapless := by
        rw [addParam, hnext]
        exact hgapless.define _
      have hnext' : (d.addParam t).nextValue = (d.addParam t).symbols.maxValue + 1 := by
        simp only [addParam, hnext, SymbolTable.Gapless.maxValue_define]
      obtain ⟨hlast, hmax, hget⟩ := ih hgapless' hnext'
      refine ⟨hlast, hmax, ?_⟩
      intro v e
      have hfirst : (d.addParam t).symbols.get? v = some e ↔
          (v = d.nextValue ∧ e = .param d.params.length t) ∨ d.symbols.get? v = some e := by
        rw [hnext]
        simp only [addParam, hnext, hgapless.get?_define_next]
      rw [List.foldl_cons, hget, hfirst, or_comm, ← or_assoc, or_comm]
      refine or_congr_right ?_
      constructor
      · rintro (⟨i, t', hi, rfl, rfl⟩ | ⟨rfl, rfl⟩)
        · refine ⟨i + 1, t', hi, Nat.add_right_comm .., ?_⟩
          simp [addParam, Nat.add_assoc, Nat.add_comm 1]
        · exact ⟨0, t, rfl, rfl, rfl⟩
      · rintro ⟨i, t', hi, rfl, rfl⟩
        cases i with
        | zero =>
            obtain rfl : t = t' := Option.some.inj hi
            exact Or.inr ⟨rfl, rfl⟩
        | succ i =>
            refine Or.inl ⟨i, t', hi, (Nat.succ_add_eq_add_succ ..).symm, ?_⟩
            simp [addParam, Nat.add_assoc, Nat.add_comm 1]

theorem inStep_start (method : MethodRef) (isStatic : Bool) : (start method isStatic).InStep := by
  obtain ⟨hgapless, hnext, hget⟩ := addParams_symbols (parameterTypes method isStatic)
    (d := blank method isStatic) .empty rfl
  obtain ⟨hparams, hmethod, hstatic, hinstructions, hphis, hpc⟩ :=
    addParams_spec (parameterTypes method isStatic) (blank method isStatic)
  rw [start_eq_addParams]
  generalize (parameterTypes method isStatic).foldl addParam (blank method isStatic) = d at *
  have htypes : parameterTypes d.method d.isStatic = parameterTypes method isStatic := by
    rw [hmethod, hstatic, blank]
  refine ⟨⟨hgapless, ?_, ?_, ?_, ?_⟩, hnext, ?_⟩
  · show d.params = List.range' 1 (parameterTypes d.method d.isStatic).length
    rw [htypes]
    exact hparams
  · intro v e he
    rw [show d.body.symbols.get? v = d.symbols.get? v from rfl, hget]
    cases e with
    | null => exact absurd rfl he
    | param i t =>
        rw [Body.Gives, show parameterTypes d.body.method d.body.isStatic = _ from htypes]
        constructor
        · rintro (hnone | ⟨j, u, hj, hv, hparam⟩)
          · cases hnone
          · obtain ⟨hi, rfl⟩ := Definition.param.inj hparam
            rw [hi, hv]
            exact ⟨by simp [blank, Nat.add_comm], by simpa [blank] using hj⟩
        · rintro ⟨hv, ht⟩
          exact Or.inr ⟨i, t, ht, by rw [hv, Nat.add_comm, blank], by simp [blank]⟩
    | instruction i =>
        simp [Body.Gives, body, hinstructions, blank, SymbolTable.empty, SymbolTable.get?]
    | phi j => simp [Body.Gives, body, hphis, blank, SymbolTable.empty, SymbolTable.get?]
  · intro i ins hins
    rw [show d.body.instructions = [] from hinstructions] at hins
    cases hins
  · rw [Body.counters, show d.body.instructions = [] from hinstructions]
    rfl
  · rw [Body.counters, show d.body.instructions = [] from hinstructions]
    exact hpc

/-- An instruction that takes the next value and the next program counter. -/
theorem InStep.issue_value (h : d.InStep) {ins : Instruction}
    (hindex : ins.index = d.instructions.length) (hresult : ins.result? = some d.nextValue)
    (hpc : ins.programCounter? = some d.nextPc) :
    ({ d with
        symbols := d.symbols.define d.nextValue (.instruction d.instructions.length)
        instructions := d.instructions ++ [ins]
        nextValue := d.nextValue + 1
        nextPc := d.nextPc + 1 } : Draft).InStep where
  tables := by
    apply h.tables.issue hindex
    · intro pc hcounter
      rw [← h.nextPc]
      exact Option.some.inj (hcounter.symm.trans hpc)
    · rw [h.nextValue]
      exact h.tables.gapless.define _
    · intro v e
      rw [hresult, h.nextValue, Option.some.injEq, eq_comm (b := v)]
      exact h.tables.gapless.get?_define_next _ e v
  nextValue := by
    simp only [h.nextValue, SymbolTable.Gapless.maxValue_define]
  nextPc := by
    rw [Body.counters_concat (b := d.body) rfl, hpc, List.length_append, ← h.nextPc]
    rfl

/-- An instruction without a result, which may take the next program counter. -/
theorem InStep.issue_plain (h : d.InStep) {ins : Instruction} {nextPc : Nat}
    (hindex : ins.index = d.instructions.length) (hresult : ins.result? = none)
    (hpc : (ins.programCounter? = some d.nextPc ∧ nextPc = d.nextPc + 1) ∨
      (ins.programCounter? = none ∧ nextPc = d.nextPc)) :
    ({ d with instructions := d.instructions ++ [ins], nextPc := nextPc } : Draft).InStep where
  tables := by
    apply h.tables.issue hindex
    · intro pc hcounter
      rw [← h.nextPc]
      rcases hpc with ⟨htaken, -⟩ | ⟨hnone, -⟩
      · exact Option.some.inj (hcounter.symm.trans htaken)
      · rw [hnone] at hcounter
        cases hcounter
    · exact h.tables.gapless
    · intro v e
      rw [hresult]
      simp [body]
  nextValue := h.nextValue
  nextPc := by
    rw [Body.counters_concat (b := d.body) rfl, List.length_append, ← h.nextPc]
    rcases hpc with ⟨htaken, hnext⟩ | ⟨hnone, hnext⟩
    · rw [htaken]
      exact hnext
    · rw [hnone]
      exact hnext

/-- Every operation keeps the tables in step. -/
theorem Written.inStep (h : Written method isStatic d) : d.InStep := by
  induction h with
  | start => exact inStep_start method isStatic
  | newObject t line _ ih => exact ih.issue_value rfl rfl rfl
  | invoke target kind args line _ ih =>
      rw [Draft.invoke]
      by_cases hvoid : target.returnType = TypeName.void
      · rw [if_pos hvoid]
        exact ih.issue_plain rfl rfl (Or.inl ⟨rfl, rfl⟩)
      · rw [if_neg hvoid]
        exact ih.issue_value rfl rfl rfl
  | phi uses _ ih =>
      refine ⟨ih.tables.merge ih.nextValue uses, ?_, ih.nextPc⟩
      simp only [Draft.phi, ih.nextValue, SymbolTable.Gapless.maxValue_define]
  | null _ ih =>
      refine ⟨ih.tables.null ih.nextValue, ?_, ih.nextPc⟩
      simp only [Draft.null, ih.nextValue, SymbolTable.Gapless.maxValue_define]
  | ret value line _ ih => exact ih.issue_plain rfl rfl (Or.inr ⟨rfl, rfl⟩)

/-- The next value and the next program counter are words as long as there are fewer values and
    instructions than words. -/
theorem InStep.next_lt (h : d.InStep) (hsize : d.symbols.size + 1 < UInt32.size)
    (hinstructions : d.instructions.length < UInt32.size) :
    d.nextValue < UInt32.size ∧ d.nextPc < UInt32.size := by
  have hmax : d.symbols.size = d.symbols.maxValue := h.tables.size_symbols
  rw [h.nextValue, ← hmax, h.nextPc]
  exact ⟨hsize, Nat.lt_of_le_of_lt d.body.length_counters_le hinstructions⟩

end Draft

/-! ### Drafted bodies -/

namespace Body.Drafted

variable {b : Body} {v : ValueNumber}

theorem singleAssignment (h : b.Drafted) : b.SingleAssignment := by
  obtain ⟨method, isStatic, d, hd, hfinish⟩ := h
  rw [Draft.finish_eq_ok hfinish]
  exact hd.inStep.tables

/-- Instructions with the same program counter are the same. -/
theorem eq_of_programCounter (h : b.Drafted) {i j : Instruction} (hi : i ∈ b.instructions)
    (hj : j ∈ b.instructions) {pc : Nat} (hipc : i.programCounter? = some pc)
    (hjpc : j.programCounter? = some pc) : i = j := by
  by_contra hne
  exact h.singleAssignment.apart.forall hi hj hne pc hipc hjpc

/-- The parameter at position `i` is the value `i + 1`. -/
theorem eq_of_param (h : b.Drafted) {i : Nat} (hv : b.params[i]? = some v) : v = i + 1 := by
  rw [h.singleAssignment.params] at hv
  obtain ⟨hlt, hget⟩ := List.getElem?_eq_some_iff.mp hv
  rw [List.getElem_range', Nat.one_mul, Nat.add_comm] at hget
  exact hget.symm

/-- Nothing defines a parameter: the table would have two definitions for it. -/
theorem not_defines_param (h : b.Drafted) (hv : v ∈ b.params) : ¬ b.Defines v := by
  have htables := h.singleAssignment
  obtain ⟨i, t, hparam⟩ := htables.get?_param hv
  rintro (⟨p, hp, hresult⟩ | ⟨ins, hins, hresult⟩)
  · obtain ⟨j, hj⟩ := List.mem_iff_getElem?.mp hp
    have hphi := (htables.defined _ (.phi j) nofun).mpr ⟨p, hj, hresult⟩
    cases hparam.symm.trans hphi
  · obtain ⟨j, hj⟩ := List.mem_iff_getElem?.mp hins
    have hinstruction := (htables.defined _ (.instruction j) nofun).mpr ⟨ins, hj, hresult⟩
    cases hparam.symm.trans hinstruction

/-- An instance method has a parameter for the receiver. -/
theorem exists_receiver (h : b.Drafted) (hinst : b.isStatic = false) : b.params[0]? = some 1 := by
  rw [h.singleAssignment.params, hinst]
  rfl

end Body.Drafted

namespace Draft

/-- At every point of writing, and in the body that a draft becomes, values are assigned once.
    The symbol table defines exactly the values from one to the largest, each once: parameters
    first, with the declaring class of an instance method and the declared types in order; an
    instruction or a merge at a position for just the value that is its result.  Instructions
    know their positions, and allocations and calls count their program counters up from zero.
    So the look-ups of the body find for a value, or for a program counter, the one instruction
    or merge that it belongs to, and no two calls share a call site.  As long as there are fewer
    values and instructions than words of 32 bits and only such words are read, all numbers fit,
    and so do the next value and the next program counter. -/
theorem written_singleAssignment (method : MethodRef) (isStatic : Bool) (d : Draft)
    (h : Written method isStatic d) (b : Body) (hb : b = d.body ∨ d.finish = .ok b) :
    b.method = method ∧ b.isStatic = isStatic ∧ b.SingleAssignment ∧
    (∀ v, (b.symbols.get? v).isSome ↔ 1 ≤ v ∧ v ≤ b.symbols.maxValue) ∧
    (∀ v ins, b.definingInstruction? v = some ins ↔
      ins ∈ b.instructions ∧ ins.result? = some v) ∧
    (∀ v p, b.phi? v = some p ↔ p ∈ b.phis ∧ p.result = v) ∧
    (∀ pc ins, b.invokeAt? pc = some ins ↔ ins ∈ b.instructions ∧
      ∃ site, ins.callSite? = some site ∧ site.programCounter = pc) ∧
    b.callSites.Nodup ∧
    (b.symbols.size + 1 < UInt32.size → b.instructions.length < UInt32.size →
      (∀ v ∈ b.instructions.flatMap Instruction.uses ++ b.phis.flatMap Phi.uses,
        v < UInt32.size) →
      b.Fits ∧ d.nextValue < UInt32.size ∧ d.nextPc < UInt32.size) := by
  obtain rfl : b = d.body := hb.elim id finish_eq_ok
  have htables := h.inStep.tables
  refine ⟨h.kept.1, h.kept.2, htables, htables.gapless.isSome_get?_iff,
    fun v ins => htables.definingInstruction?_iff, fun v p => htables.phi?_iff,
    fun pc ins => htables.invokeAt?_iff, htables.nodup_callSites, ?_⟩
  intro hsize hinstructions hreads
  exact ⟨htables.fits (Nat.lt_of_succ_lt hsize) (Nat.le_of_lt hinstructions) hreads,
    h.inStep.next_lt hsize hinstructions⟩

/-! ### A till that streams what it was given, or a new box -/

namespace Till

def till : TypeRef := ⟨.application, ⟨"Lshop/Till"⟩⟩

def box : TypeRef := ⟨.application, ⟨"Lshop/Box"⟩⟩

def setUp : MethodRef := ⟨box, "<init>", [], TypeName.void⟩

def stream : MethodRef := ⟨box, "stream", [], ⟨"Ljava/util/stream/Stream"⟩⟩

/-- An instance method with two parameters. -/
def tally : MethodRef := ⟨till, "tally", [box.name, ⟨"I"⟩], stream.returnType⟩

/-- A draft in which a new box is initialized by a call without a result. -/
def opened : Draft := (((start tally false).newObject box 3).2.invoke setUp .special [4] 3).2

/-- The stream of the given box, of the new one, or of none. -/
def draft : Draft := ((opened.null.2.phi [2, 4, 5]).2.invoke stream .virtual [6] 4).2.ret (some 7) 4

theorem written : Written tally false draft :=
  ((((Written.start.newObject _ _).invoke _ _ _ _).null.phi _).invoke _ _ _ _).ret _ _

/-- The second call takes the third program counter, behind an allocation and a call, and the
    seventh value, behind three parameters, a box, a null constant and a merge. -/
theorem written_singleAssignment_till : Written tally false draft ∧
    draft.body.params = [1, 2, 3] ∧ draft.body.symbols.maxValue = 7 ∧
    draft.body.counters = [0, 1, 2] ∧
    draft.body.symbols.get? 1 = some (.param 0 till.name) ∧
    draft.body.definingInstruction? 7 =
      some (.invoke 2 (some 7) [6] ⟨2, stream, .virtual⟩ 4) ∧
    draft.body.phi? 6 = some ⟨6, [2, 4, 5]⟩ ∧
    draft.body.invokeAt? 1 = some (.invoke 1 none [4] ⟨1, setUp, .special⟩ 3) ∧
    draft.body.callSites.Nodup ∧
    draft.body.Fits ∧ draft.nextValue < UInt32.size ∧ draft.nextPc < UInt32.size := by
  obtain ⟨-, -, htables, -, hdef, hphi, hat, hsites, hfits⟩ :=
    written_singleAssignment tally false draft written draft.body (Or.inl rfl)
  refine ⟨written, htables.params, rfl, htables.counters, ?_, ?_, ?_, ?_, hsites,
    hfits (by decide +kernel) (by decide +kernel) (by decide +kernel)⟩
  · exact (htables.defined 1 (.param 0 till.name) nofun).mpr ⟨rfl, rfl⟩
  · exact (hdef _ _).mpr ⟨by decide +kernel, rfl⟩
  · exact (hphi _ _).mpr ⟨by decide +kernel, rfl⟩
  · exact (hat _ _).mpr ⟨by decide +kernel, _, rfl, rfl⟩

end Till

end Draft
end StreamVerdict
