/-
  Bodies whose numbers fit.

  Values and program counters are kept as words of 32 bits, positions as words of 64.  A body
  fits if all its numbers have the widths in which they are kept.
-/
import StreamVerdict.Body.Basic

namespace StreamVerdict

/-- The program counter has 32 bits. -/
def NewSite.Fits (s : NewSite) : Prop := s.programCounter < UInt32.size

instance (s : NewSite) : Decidable s.Fits := inferInstanceAs (Decidable (_ < _))

/-- The program counter has 32 bits. -/
def CallSite.Fits (s : CallSite) : Prop := s.programCounter < UInt32.size

instance (s : CallSite) : Decidable s.Fits := inferInstanceAs (Decidable (_ < _))

/-- The position has 64 bits, values and the program counter have 32. -/
def Instruction.Fits : Instruction → Prop
  | .new i v site _ => i < UInt64.size ∧ v < UInt32.size ∧ site.Fits
  | .invoke i v args site _ =>
    i < UInt64.size ∧ (∀ w ∈ v, w < UInt32.size) ∧ (∀ w ∈ args, w < UInt32.size) ∧ site.Fits
  | .ret i v _ => i < UInt64.size ∧ ∀ w ∈ v, w < UInt32.size

instance : (ins : Instruction) → Decidable ins.Fits
  | .new _ _ _ _ => inferInstanceAs (Decidable (_ ∧ _ ∧ _))
  | .invoke _ _ _ _ _ => inferInstanceAs (Decidable (_ ∧ _ ∧ _ ∧ _))
  | .ret _ _ _ => inferInstanceAs (Decidable (_ ∧ _))

/-- Values have 32 bits. -/
def Phi.Fits (p : Phi) : Prop := p.result < UInt32.size ∧ ∀ w ∈ p.uses, w < UInt32.size

instance (p : Phi) : Decidable p.Fits := inferInstanceAs (Decidable (_ ∧ _))

/-- Positions have 64 bits. -/
def Definition.Fits : Definition → Prop
  | .param i _ => i < UInt64.size
  | .null => True
  | .instruction i => i < UInt64.size
  | .phi i => i < UInt64.size

instance : (d : Definition) → Decidable d.Fits
  | .param _ _ => inferInstanceAs (Decidable (_ < _))
  | .null => inferInstanceAs (Decidable True)
  | .instruction _ => inferInstanceAs (Decidable (_ < _))
  | .phi _ => inferInstanceAs (Decidable (_ < _))

/-- Values have 32 bits. -/
def SymbolTable.Fits (t : SymbolTable) : Prop :=
  (∀ e ∈ t.entries, e.1 < UInt32.size ∧ e.2.Fits) ∧ t.maxValue < UInt32.size

instance (t : SymbolTable) : Decidable t.Fits := inferInstanceAs (Decidable (_ ∧ _))

/-- Every part of the body fits. -/
def Body.Fits (b : Body) : Prop :=
  (∀ v ∈ b.params, v < UInt32.size) ∧ (∀ i ∈ b.instructions, i.Fits) ∧ (∀ p ∈ b.phis, p.Fits) ∧
    b.symbols.Fits

instance (b : Body) : Decidable b.Fits := inferInstanceAs (Decidable (_ ∧ _ ∧ _ ∧ _))

theorem Body.Fits.callSite {b : Body} (h : b.Fits) {site : CallSite} (hsite : site ∈ b.callSites) :
    site.Fits := by
  obtain ⟨ins, hins, hcall⟩ := List.mem_filterMap.mp hsite
  have hfits := h.2.1 ins hins
  cases ins with
  | invoke i v args s line =>
      cases hcall
      exact hfits.2.2.2
  | new _ _ _ _ => cases hcall
  | ret _ _ _ => cases hcall

end StreamVerdict
