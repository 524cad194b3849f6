/-
  Selectors tell methods apart.

  The descriptors of a method's parameters stand one behind the other, with nothing between them.
  They can be read off one by one nevertheless: brackets lead to a code letter, which stands for
  itself, or to an `L`, which begins a name that ends at the next semicolon.  No descriptor begins
  with the parenthesis that ends the parameters.
-/
import StreamVerdict.Proofs.Hierarchy.Selection
import StreamVerdict.Proofs.Jvm.RoundTrip

namespace StreamVerdict

/-- There is one way to cut a text at the first `c`. -/
theorem Text.cut_at_first {c : Char} {s t x y : List Char} (hs : c ∉ s) (ht : c ∉ t)
    (h : s ++ c :: x = t ++ c :: y) : s = t ∧ x = y := by
  induction s generalizing t with
  | nil =>
      cases t with
      | nil => exact ⟨rfl, (List.cons.inj h).2⟩
      | cons d t =>
          rw [(List.cons.inj h).1] at ht
          exact absurd List.mem_cons_self ht
  | cons d s ih =>
      cases t with
      | nil =>
          rw [(List.cons.inj h).1] at hs
          exact absurd List.mem_cons_self hs
      | cons d' t =>
          obtain ⟨rfl, hrest⟩ := List.cons.inj h
          obtain ⟨rfl, rfl⟩ := ih (List.not_mem_of_not_mem_cons hs)
            (List.not_mem_of_not_mem_cons ht) hrest
          exact ⟨rfl, rfl⟩

/-! ### One descriptor -/

namespace TypeName

variable {a b x y : List Char} {t u : TypeName}

/-- The type has a binary name without semicolons. -/
def IsPlain (t : TypeName) : Prop := ∃ b : String, ';' ∉ b.toList ∧ t = ofBinary b

theorem IsPlain.spelled (h : t.IsPlain) : Spelled (';' ∉ ·) t.internal.toList := by
  obtain ⟨b, hb, rfl⟩ := h
  obtain ⟨e, n, hpairs, he⟩ := exists_pairs b.toList
  rw [internal_ofBinary hpairs he]
  refine ⟨n, _, rfl, isElement_internalOfElement ?_⟩
  intro _ hmem
  -- A semicolon in the internal form was one in the binary form.
  obtain ⟨c, hc, hsemicolon⟩ := List.mem_map.mp hmem
  apply hb
  rw [hpairs]
  split at hsemicolon
  · cases hsemicolon
  · exact List.mem_append_left _ (hsemicolon ▸ hc)

theorem descriptorOfInternal_brackets (n : Nat) (cs : List Char) :
    descriptorOfInternal (List.replicate n '[' ++ cs) =
      List.replicate n '[' ++ descriptorOfInternal cs := by
  induction n with
  | zero => rfl
  | succ n ih => exact congrArg (List.cons '[') ih

theorem descriptorOfInternal_code (p : Primitive) : descriptorOfInternal [p.code] = [p.code] := by
  cases p <;> rfl

/-- The descriptor of an element type begins neither with a bracket nor with the parenthesis behind
    the parameters. -/
theorem IsElement.descriptor_head {Fits : List Char → Prop} (ha : IsElement Fits a) :
    ∃ c rest, descriptorOfInternal a = c :: rest ∧ c ≠ '[' ∧ c ≠ ')' := by
  rcases ha with ⟨p, rfl⟩ | ⟨s, rfl, -⟩
  · refine ⟨p.code, [], descriptorOfInternal_code p, p.code_ne_bracket, ?_⟩
    cases p <;> decide
  · exact ⟨'L', s ++ [';'], rfl, by decide, by decide⟩

/-- The descriptor of an element type can be read off the front of a text in one way. -/
theorem IsElement.descriptor_append (ha : IsElement (';' ∉ ·) a) (hb : IsElement (';' ∉ ·) b)
    (h : descriptorOfInternal a ++ x = descriptorOfInternal b ++ y) : a = b ∧ x = y := by
  rcases ha with ⟨p, rfl⟩ | ⟨s, rfl, hs⟩ <;> rcases hb with ⟨q, rfl⟩ | ⟨s', rfl, hs'⟩
  · rw [descriptorOfInternal_code, descriptorOfInternal_code] at h
    obtain ⟨hcode, hrest⟩ := List.cons.inj h
    exact ⟨congrArg (fun c => [c]) hcode, hrest⟩
  · rw [descriptorOfInternal_code] at h
    exact absurd (List.cons.inj h).1 p.code_ne_L
  · rw [descriptorOfInternal_code] at h
    exact absurd (List.cons.inj h).1.symm q.code_ne_L
  · have hrest : s ++ ';' :: x = s' ++ ';' :: y := by
      simpa [descriptorOfInternal] using h
    obtain ⟨rfl, rfl⟩ := Text.cut_at_first hs hs' hrest
    exact ⟨rfl, rfl⟩

/-- A descriptor can be read off the front of a text in one way. -/
theorem Spelled.descriptor_append (ha : Spelled (';' ∉ ·) a) (hb : Spelled (';' ∉ ·) b)
    (h : descriptorOfInternal a ++ x = descriptorOfInternal b ++ y) : a = b ∧ x = y := by
  obtain ⟨n, a, rfl, ha⟩ := ha
  obtain ⟨m, b, rfl, hb⟩ := hb
  rw [descriptorOfInternal_brackets, descriptorOfInternal_brackets] at h
  -- The brackets are read off together, until an element type begins on one side.
  induction n generalizing m with
  | zero =>
      cases m with
      | zero => exact ha.descriptor_append hb h
      | succ m =>
          obtain ⟨c, rest, hdescriptor, hc, -⟩ := ha.descriptor_head
          rw [hdescriptor] at h
          exact absurd (List.cons.inj h).1 hc
  | succ n ih =>
      cases m with
      | zero =>
          obtain ⟨c, rest, hdescriptor, hc, -⟩ := hb.descriptor_head
          rw [hdescriptor] at h
          exact absurd (List.cons.inj h).1.symm hc
      | succ m =>
          obtain ⟨hnames, hrest⟩ := ih m (List.cons.inj h).2
          exact ⟨congrArg (List.cons '[') hnames, hrest⟩

theorem IsPlain.descriptor_append (ht : t.IsPlain) (hu : u.IsPlain)
    (h : t.descriptor.toList ++ x = u.descriptor.toList ++ y) : t = u ∧ x = y := by
  rw [descriptor, descriptor, String.toList_ofList, String.toList_ofList] at h
  obtain ⟨hinternal, hrest⟩ := ht.spelled.descriptor_append hu.spelled h
  cases t
  cases u
  exact ⟨congrArg TypeName.mk (String.toList_inj.mp hinternal), hrest⟩

theorem IsPlain.descriptor_append_ne (ht : t.IsPlain) (x y : List Char) :
    t.descriptor.toList ++ x ≠ ')' :: y := by
  obtain ⟨n, element, hinternal, helement⟩ := ht.spelled
  rw [descriptor, String.toList_ofList, hinternal, descriptorOfInternal_brackets]
  intro h
  cases n with
  | zero =>
      obtain ⟨c, rest, hdescriptor, -, hc⟩ := helement.descriptor_head
      rw [hdescriptor] at h
      exact hc (List.cons.inj h).1
  | succ n => exact absurd (List.cons.inj h).1 (by decide)

/-- The descriptors of parameters can be read off one by one up to the parenthesis. -/
theorem descriptors_append {ts us : List TypeName} (hts : ∀ t ∈ ts, t.IsPlain)
    (hus : ∀ u ∈ us, u.IsPlain)
    (h : ts.flatMap (fun t => t.descriptor.toList) ++ ')' :: x =
      us.flatMap (fun t => t.descriptor.toList) ++ ')' :: y) :
    ts = us ∧ x = y := by
  induction ts generalizing us with
  | nil =>
      cases us with
      | nil => exact ⟨rfl, (List.cons.inj h).2⟩
      | cons u us =>
          rw [List.flatMap_cons, List.append_assoc] at h
          exact absurd h.symm ((hus u List.mem_cons_self).descriptor_append_ne _ _)
  | cons t ts ih =>
      cases us with
      | nil =>
          rw [List.flatMap_cons, List.append_assoc] at h
          exact absurd h ((hts t List.mem_cons_self).descriptor_append_ne _ _)
      | cons u us =>
          rw [List.flatMap_cons, List.append_assoc, List.flatMap_cons, List.append_assoc] at h
          obtain ⟨rfl, hrest⟩ :=
            (hts t List.mem_cons_self).descriptor_append (hus u List.mem_cons_self) h
          obtain ⟨rfl, rfl⟩ := ih (fun t' ht' => hts t' (List.mem_cons_of_mem _ ht'))
            (fun u' hu' => hus u' (List.mem_cons_of_mem _ hu')) hrest
          exact ⟨rfl, rfl⟩

end TypeName

/-! ### Methods -/

namespace MethodRef

/-- There is no parenthesis in the name, and the types have binary names without semicolons. -/
structure IsPlain (m : MethodRef) : Prop where
  name : '(' ∉ m.name.toList
  parameters : ∀ t ∈ m.parameterTypes, t.IsPlain
  result : m.returnType.IsPlain

theorem toList_selector (m : MethodRef) :
    m.selector.toList = m.name.toList ++
      '(' :: (m.parameterTypes.flatMap (fun t => t.descriptor.toList) ++
        ')' :: m.returnType.descriptor.toList) := by
  simp [selector, descriptor, String.toList_join, List.flatMap_map]

theorem IsPlain.parts_of_selector_eq {m₁ m₂ : MethodRef} (h₁ : m₁.IsPlain) (h₂ : m₂.IsPlain)
    (h : m₁.selector = m₂.selector) :
    m₁.name = m₂.name ∧ m₁.parameterTypes = m₂.parameterTypes ∧ m₁.returnType = m₂.returnType := by
  rw [← String.toList_inj, toList_selector, toList_selector] at h
  obtain ⟨hname, hdescriptor⟩ := Text.cut_at_first h₁.name h₂.name h
  obtain ⟨hparameters, hresult⟩ :=
    TypeName.descriptors_append h₁.parameters h₂.parameters hdescriptor
  have hend : m₁.returnType.descriptor.toList ++ [] = m₂.returnType.descriptor.toList ++ [] := by
    rw [hresult]
  exact ⟨String.toList_inj.mp hname, hparameters,
    (h₁.result.descriptor_append h₂.result hend).1⟩

theorem selector_congr {m₁ m₂ : MethodRef} (hname : m₁.name = m₂.name)
    (hparameters : m₁.parameterTypes = m₂.parameterTypes)
    (hresult : m₁.returnType = m₂.returnType) : m₁.selector = m₂.selector := by
  rw [selector, selector, descriptor, descriptor, hname, hparameters, hresult]

/-- Two methods with plain names have the same selector iff they have the same name, the same
    parameter types in the same order and the same return type.  So a look-up by selector finds a
    method with these three only. -/
theorem selector_identifies :
    (∀ m₁ m₂ : MethodRef, m₁.IsPlain → m₂.IsPlain →
      (m₁.selector = m₂.selector ↔
        m₁.name = m₂.name ∧ m₁.parameterTypes = m₂.parameterTypes ∧
          m₁.returnType = m₂.returnType)) ∧
    ∀ (c : ClassInfo) (m : MethodRef) (d : DeclaredMethod), m.IsPlain → d.method.IsPlain →
      c.findMethod? m.selector = some d →
      d ∈ c.methods ∧ d.method.name = m.name ∧ d.method.parameterTypes = m.parameterTypes ∧
        d.method.returnType = m.returnType := by
  constructor
  · intro m₁ m₂ h₁ h₂
    constructor
    · exact h₁.parts_of_selector_eq h₂
    · rintro ⟨hname, hparameters, hresult⟩
      exact selector_congr hname hparameters hresult
  · intro c m d hm hd hfound
    have hselector := ClassInfo.selector_of_findMethod? hfound
    exact ⟨List.mem_of_find?_eq_some hfound, hd.parts_of_selector_eq hm hselector⟩

/-! ### Overloads with alike descriptors -/

namespace Overloads

/-- A method of a register, with parameters of the given types. -/
def enter (params : List String) : MethodRef :=
  { declaringClass := ⟨.application, TypeName.ofBinary "shop.Register"⟩
    name := "enter"
    parameterTypes := params.map TypeName.ofBinary
    returnType := TypeName.ofBinary "void" }

/-- Three types named `int`, `I` and `ILI`, in two orders. -/
def register : ClassInfo :=
  ((ClassInfo.concrete .application "shop.Register").declare "enter" ["int", "I", "ILI[]"] "void"
    false false).declare "enter" ["I", "int", "ILI[]"] "void" false false

theorem isPlain_enter {params : List String} (h : ∀ b ∈ params, ';' ∉ b.toList) :
    (enter params).IsPlain where
  name := by
    show '(' ∉ "enter".toList
    decide
  parameters := by
    intro t ht
    obtain ⟨b, hb, rfl⟩ := List.mem_map.mp ht
    exact ⟨b, h b hb, rfl⟩
  result := ⟨"void", by decide, rfl⟩

/-- The selectors `enter(ILI;[LILI;)V` and `enter(LI;I[LILI;)V` differ, and the second overload is
    the one that is found under its selector. -/
theorem selector_identifies_enter :
    (enter ["int", "I", "ILI[]"]).IsPlain ∧ (enter ["I", "int", "ILI[]"]).IsPlain ∧
    (enter ["int", "I", "ILI[]"]).selector ≠ (enter ["I", "int", "ILI[]"]).selector ∧
    ∃ d, register.findMethod? (enter ["I", "int", "ILI[]"]).selector = some d ∧
      d.method.parameterTypes = (enter ["I", "int", "ILI[]"]).parameterTypes := by
  have hfirst : (enter ["int", "I", "ILI[]"]).IsPlain := isPlain_enter (by decide)
  have hsecond : (enter ["I", "int", "ILI[]"]).IsPlain := isPlain_enter (by decide)
  refine ⟨hfirst, hsecond, ?_, ⟨enter ["I", "int", "ILI[]"], false, false⟩, by decide, ?_⟩
  · intro hselector
    have hparts := (selector_identifies.1 _ _ hfirst hsecond).mp hselector
    exact absurd hparts.2.1 (by decide)
  · exact (selector_identifies.2 register _ _ hsecond hsecond (by decide)).2.2.1

end Overloads

end MethodRef
end StreamVerdict
