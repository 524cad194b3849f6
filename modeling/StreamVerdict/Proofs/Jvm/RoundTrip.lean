/-
  From the internal form of a type name to the binary form and back.

  A binary name is the name of an element type with pairs of brackets behind it, an internal name
  has single brackets before it, and both translations go through the brackets one by one before
  they come to the element type.  There, keywords stand for code letters, an `L` is added or
  dropped, semicolons at the end are dropped, and dots stand for slashes.  What the way back does
  not restore is known from that: dots, a semicolon or a pair of brackets at the end, and a class
  with the name of a keyword.
-/
import Mathlib.Data.List.DropRight
import StreamVerdict.Jvm.TypeName

namespace StreamVerdict

/-! ### Keywords and codes -/

namespace Primitive

theorem mem_all (p : Primitive) : p ∈ all := by
  cases p <;> decide

theorem ofKeyword?_keyword (p : Primitive) : ofKeyword? p.keyword.toList = some p := by
  cases p <;> decide

theorem ofCode?_code (p : Primitive) : ofCode? [p.code] = some p := by
  cases p <;> decide

theorem ofKeyword?_eq_none {cs : List Char} :
    ofKeyword? cs = none ↔ ∀ p : Primitive, cs ≠ p.keyword.toList := by
  rw [ofKeyword?, List.find?_eq_none]
  constructor
  · intro h p hp
    exact h p (mem_all p) (by simp [hp])
  · intro h p _ hp
    have hkeyword : p.keyword.toList = cs := by simpa using hp
    exact h p hkeyword.symm

theorem code_ne_bracket (p : Primitive) : p.code ≠ '[' := by
  cases p <;> decide

theorem code_ne_L (p : Primitive) : p.code ≠ 'L' := by
  cases p <;> decide

theorem dot_notMem_keyword (p : Primitive) : '.' ∉ p.keyword.toList := by
  cases p <;> decide

theorem slash_notMem_keyword (p : Primitive) : '/' ∉ p.keyword.toList := by
  cases p <;> decide

end Primitive

/-! ### Replacing a character -/

namespace Text

variable {old new : Char} {cs t : List Char}

/-- `cs` with every `old` replaced by `new`. -/
def replaced (old new : Char) (cs : List Char) : List Char :=
  cs.map fun c => if c = old then new else c

theorem toList_replace (old new : Char) (s : String) :
    (replace old new s).toList = replaced old new s.toList := by
  rw [replace, String.toList_ofList, replaced]

theorem replaced_append (old new : Char) (cs t : List Char) :
    replaced old new (cs ++ t) = replaced old new cs ++ replaced old new t := List.map_append

theorem replaced_eq_self (h : old ∉ cs) : replaced old new cs = cs := by
  have hsame : ∀ c ∈ cs, (if c = old then new else c) = id c := by
    intro c hc
    exact if_neg (ne_of_mem_of_not_mem hc h)
  rw [replaced, List.map_congr_left hsame, List.map_id]

theorem notMem_replaced (hne : old ≠ new) (cs : List Char) : old ∉ replaced old new cs := by
  intro hmem
  obtain ⟨c, -, hc⟩ := List.mem_map.mp hmem
  split at hc
  · exact hne hc.symm
  · contradiction

/-- Replacing back and forth is replacing forth alone. -/
theorem replaced_replaced (old new : Char) (cs : List Char) :
    replaced new old (replaced old new cs) = replaced new old cs := by
  rw [replaced, replaced, List.map_map, replaced]
  apply List.map_congr_left
  intro c _
  by_cases hc : c = old
  · simp [hc]
  · simp [hc]

/-- A text without the new character comes from itself only. -/
theorem eq_of_replaced_eq (h : replaced old new cs = t) (hnew : new ∉ t) : cs = t := by
  have hold : old ∉ cs := by
    intro hmem
    apply hnew
    rw [← h]
    exact List.mem_map.mpr ⟨old, hmem, if_pos rfl⟩
  rw [← h, replaced_eq_self hold]

/-- A text ends as before in what has neither of the two characters. -/
theorem suffix_replaced_iff (hold : old ∉ t) (hnew : new ∉ t) :
    t <:+ replaced old new cs ↔ t <:+ cs := by
  rw [replaced, List.suffix_map_iff]
  constructor
  · rintro ⟨t', hsuffix, ht'⟩
    rwa [← eq_of_replaced_eq ht'.symm hnew]
  · intro hsuffix
    exact ⟨t, hsuffix, (replaced_eq_self hold).symm⟩

end Text

namespace TypeName

open Text

variable {Fits : List Char → Prop} {cs e s : List Char}

/-! ### Arrays -/

/-- `n` pairs of brackets. -/
def pairs (n : Nat) : List Char := (List.replicate n ['[', ']']).flatten

theorem pairs_zero : pairs 0 = [] := rfl

theorem pairs_succ (n : Nat) : pairs (n + 1) = pairs n ++ ['[', ']'] := by
  rw [pairs, List.replicate_succ', List.flatten_concat, pairs]

theorem notMem_pairs {c : Char} (hc : c ∉ ['[', ']']) (n : Nat) : c ∉ pairs n := by
  intro hmem
  obtain ⟨l, hl, hcl⟩ := List.mem_flatten.mp hmem
  rw [List.eq_of_mem_replicate hl] at hcl
  exact hc hcl

theorem internalOfReversed_pair (cs : List Char) :
    internalOfReversed (cs ++ ['[', ']']).reverse = '[' :: internalOfReversed cs.reverse := by
  rw [List.reverse_append]
  rfl

theorem internalOfReversed_element (h : ¬ ['[', ']'] <:+ cs) :
    internalOfReversed cs.reverse = internalOfElement cs := by
  rw [internalOfReversed, List.reverse_reverse]
  intro rest hrest
  apply h
  refine ⟨rest.reverse, ?_⟩
  rw [← List.reverse_reverse cs, hrest]
  simp

/-- Every pair of brackets behind an element type is a bracket before it. -/
theorem internalOfReversed_pairs (he : ¬ ['[', ']'] <:+ e) (n : Nat) :
    internalOfReversed (e ++ pairs n).reverse = List.replicate n '[' ++ internalOfElement e := by
  induction n with
  | zero =>
      rw [pairs_zero, List.append_nil, internalOfReversed_element he]
      rfl
  | succ n ih =>
      rw [pairs_succ, ← List.append_assoc, internalOfReversed_pair, ih]
      rfl

/-- Every bracket before an internal name is a pair of brackets behind it. -/
theorem binaryOfInternal_brackets (n : Nat) (cs : List Char) :
    binaryOfInternal (List.replicate n '[' ++ cs) = binaryOfInternal cs ++ pairs n := by
  induction n with
  | zero =>
      rw [pairs_zero, List.append_nil]
      rfl
  | succ n ih =>
      rw [pairs_succ, ← List.append_assoc, ← ih]
      rfl

/-- Every text is that of an element type with pairs of brackets behind it. -/
theorem exists_pairs (cs : List Char) : ∃ e n, cs = e ++ pairs n ∧ ¬ ['[', ']'] <:+ e := by
  by_cases h : ['[', ']'] <:+ cs
  · obtain ⟨shorter, rfl⟩ := h
    have : shorter.length < (shorter ++ ['[', ']']).length := by simp
    obtain ⟨e, n, rfl, he⟩ := exists_pairs shorter
    exact ⟨e, n + 1, by rw [pairs_succ, List.append_assoc], he⟩
  · exact ⟨cs, 0, (List.append_nil cs).symm, h⟩
termination_by cs.length

/-! ### Internal names -/

/-- The code of a primitive type, or an `L` and a class name that fits. -/
def IsElement (Fits : List Char → Prop) (cs : List Char) : Prop :=
  (∃ p : Primitive, cs = [p.code]) ∨ ∃ s, cs = 'L' :: s ∧ Fits s

/-- A run of brackets, which may be empty, and then the code of a primitive type, or an `L` and a
    class name that fits. -/
def Spelled (Fits : List Char → Prop) (cs : List Char) : Prop :=
  ∃ n element, cs = List.replicate n '[' ++ element ∧ IsElement Fits element

theorem IsElement.head?_ne (h : IsElement Fits cs) : cs.head? ≠ some '[' := by
  rcases h with ⟨p, rfl⟩ | ⟨s, rfl, -⟩
  · simpa using p.code_ne_bracket
  · simp

theorem spelled_array : Spelled Fits ('[' :: cs) ↔ Spelled Fits cs := by
  constructor
  · rintro ⟨n, element, heq, helement⟩
    cases n with
    | zero =>
        rw [List.replicate_zero, List.nil_append] at heq
        rw [← heq] at helement
        exact absurd rfl helement.head?_ne
    | succ n => exact ⟨n, element, (List.cons.inj heq).2, helement⟩
  · rintro ⟨n, element, rfl, helement⟩
    exact ⟨n + 1, element, rfl, helement⟩

theorem spelled_element (h : cs.head? ≠ some '[') : Spelled Fits cs ↔ IsElement Fits cs := by
  constructor
  · rintro ⟨n, element, rfl, helement⟩
    cases n with
    | zero => exact helement
    | succ n => exact absurd rfl h
  · intro helement
    exact ⟨0, cs, rfl, helement⟩

theorem binaryOfInternal_element (h : cs.head? ≠ some '[') :
    binaryOfInternal cs = binaryOfElement cs := by
  rw [binaryOfInternal]
  rintro rest rfl
  exact h rfl

theorem internalOfElement_keyword (p : Primitive) :
    internalOfElement p.keyword.toList = [p.code] := by
  rw [internalOfElement, p.ofKeyword?_keyword]

theorem internalOfElement_named (h : ∀ p : Primitive, cs ≠ p.keyword.toList) :
    internalOfElement cs = 'L' :: replaced '.' '/' cs := by
  rw [internalOfElement, Primitive.ofKeyword?_eq_none.mpr h]
  rfl

/-- The internal form of an element type, if its name with slashes fits unless it is a keyword. -/
theorem isElement_internalOfElement
    (h : (∀ p : Primitive, e ≠ p.keyword.toList) → Fits (replaced '.' '/' e)) :
    IsElement Fits (internalOfElement e) := by
  by_cases hkeyword : ∃ p : Primitive, e = p.keyword.toList
  · obtain ⟨p, rfl⟩ := hkeyword
    exact Or.inl ⟨p, internalOfElement_keyword p⟩
  · rw [not_exists] at hkeyword
    exact Or.inr ⟨_, internalOfElement_named hkeyword, h hkeyword⟩

theorem binaryOfElement_code (p : Primitive) : binaryOfElement [p.code] = p.keyword.toList := by
  rw [binaryOfElement, p.ofCode?_code]

theorem binaryOfElement_named (s : List Char) :
    binaryOfElement ('L' :: s) = replaced '/' '.' (s.rdropWhile (· = ';')) := by
  have hnone : Primitive.ofCode? ('L' :: s) = none := by
    rw [Primitive.ofCode?, List.find?_eq_none]
    intro p _ hp
    have hcode : [p.code] = 'L' :: s := by simpa using hp
    exact p.code_ne_L (List.cons.inj hcode).1
  rw [binaryOfElement, hnone]
  rfl

theorem rdropWhile_eq_self_iff : s.rdropWhile (· = ';') = s ↔ ¬ [';'] <:+ s := by
  rw [List.rdropWhile_eq_self_iff]
  constructor
  · rintro h ⟨front, rfl⟩
    exact h (by simp) (by simp)
  · intro h hne hlast
    have hsemicolon : s.getLast hne = ';' := by simpa using hlast
    apply h
    refine ⟨s.dropLast, ?_⟩
    rw [← hsemicolon, List.dropLast_append_getLast]

/-! ### The way back -/

/-- A class name in internal form that its binary form determines. -/
structure Reversible (s : List Char) : Prop where
  noDot : '.' ∉ s
  noSemicolon : ¬ [';'] <:+ s
  noBrackets : ¬ ['[', ']'] <:+ s
  noKeyword : ∀ p : Primitive, s ≠ p.keyword.toList

/-- The name of an element type that does not end in a semicolon has an internal form that its
    binary form determines. -/
theorem reversible_replaced (hbrackets : ¬ ['[', ']'] <:+ e) (hsemicolon : ¬ [';'] <:+ e)
    (hkeyword : ∀ p : Primitive, e ≠ p.keyword.toList) : Reversible (replaced '.' '/' e) where
  noDot := notMem_replaced (by decide) e
  noSemicolon := by rwa [suffix_replaced_iff (by decide) (by decide)]
  noBrackets := by rwa [suffix_replaced_iff (by decide) (by decide)]
  noKeyword := by
    intro p hp
    exact hkeyword p (eq_of_replaced_eq hp p.slash_notMem_keyword)

/-- The way back from the binary form of a reversible name. -/
theorem Reversible.internalOfReversed_binary (h : Reversible s) :
    internalOfReversed (binaryOfElement ('L' :: s)).reverse = 'L' :: s := by
  have hbinary : binaryOfElement ('L' :: s) = replaced '/' '.' s := by
    rw [binaryOfElement_named, rdropWhile_eq_self_iff.mpr h.noSemicolon]
  have hbrackets : ¬ ['[', ']'] <:+ replaced '/' '.' s := by
    rw [suffix_replaced_iff (by decide) (by decide)]
    exact h.noBrackets
  have hkeyword : ∀ p : Primitive, replaced '/' '.' s ≠ p.keyword.toList := by
    intro p hp
    exact h.noKeyword p (eq_of_replaced_eq hp p.dot_notMem_keyword)
  rw [hbinary, internalOfReversed_element hbrackets, internalOfElement_named hkeyword,
    replaced_replaced, replaced_eq_self h.noDot]

/-- A class name is reversible if the way back from its binary form leads through no brackets and
    no keyword, and restores it. -/
theorem reversible_of_replaced_eq (hs : s = replaced '.' '/' (binaryOfElement ('L' :: s)))
    (hbrackets : ¬ ['[', ']'] <:+ binaryOfElement ('L' :: s))
    (hkeyword : ∀ p : Primitive, binaryOfElement ('L' :: s) ≠ p.keyword.toList) :
    Reversible s := by
  -- Nothing was trimmed: no replacement changes the length.
  have htrim : s.rdropWhile (· = ';') = s := by
    apply (s.rdropWhile_prefix _).eq_of_length
    have hlength := congrArg List.length hs
    rw [binaryOfElement_named, replaced, List.length_map, replaced, List.length_map] at hlength
    exact hlength.symm
  have hbinary : binaryOfElement ('L' :: s) = replaced '/' '.' s := by
    rw [binaryOfElement_named, htrim]
  rw [hbinary] at hs hbrackets hkeyword
  refine ⟨?_, rdropWhile_eq_self_iff.mp htrim, ?_, ?_⟩
  · -- What the way back gives has slashes in place of dots.
    rw [hs]
    exact notMem_replaced (by decide) _
  · rwa [suffix_replaced_iff (by decide) (by decide)] at hbrackets
  · rintro p rfl
    exact hkeyword p (replaced_eq_self p.slash_notMem_keyword)

/-- The way back restores an internal name without brackets iff it is that of an element type with
    a reversible name. -/
theorem internalOfReversed_binaryOfElement_iff (h : cs.head? ≠ some '[') :
    internalOfReversed (binaryOfElement cs).reverse = cs ↔ IsElement Reversible cs := by
  constructor
  · intro hback
    -- A pair of brackets in the binary form would come back as a bracket at the front.
    have hbrackets : ¬ ['[', ']'] <:+ binaryOfElement cs := by
      rintro ⟨front, hfront⟩
      rw [← hfront, internalOfReversed_pair] at hback
      rw [← hback] at h
      exact h rfl
    rw [internalOfReversed_element hbrackets] at hback
    by_cases hkeyword : ∃ p : Primitive, binaryOfElement cs = p.keyword.toList
    · obtain ⟨p, hp⟩ := hkeyword
      rw [hp, internalOfElement_keyword] at hback
      exact Or.inl ⟨p, hback.symm⟩
    · rw [not_exists] at hkeyword
      rw [internalOfElement_named hkeyword] at hback
      obtain ⟨s, rfl⟩ : ∃ s, cs = 'L' :: s := ⟨_, hback.symm⟩
      have hs := (List.cons.inj hback).2.symm
      exact Or.inr ⟨s, rfl, reversible_of_replaced_eq hs hbrackets hkeyword⟩
  · rintro (⟨p, rfl⟩ | ⟨s, rfl, hs⟩)
    · rw [binaryOfElement_code, internalOfReversed_element, internalOfElement_keyword]
      cases p <;> decide
    · exact hs.internalOfReversed_binary

theorem internalOfReversed_binaryOfInternal_iff (cs : List Char) :
    internalOfReversed (binaryOfInternal cs).reverse = cs ↔ Spelled Reversible cs := by
  fun_induction binaryOfInternal cs with
  | case1 rest ih =>
      rw [internalOfReversed_pair, List.cons.injEq, spelled_array, ← ih, and_iff_right rfl]
  | case2 cs hcs =>
      have hhead : cs.head? ≠ some '[' := by
        intro hhead
        obtain ⟨rest, rfl⟩ := List.head?_eq_some_iff.mp hhead
        exact hcs rest rfl
      rw [spelled_element hhead, internalOfReversed_binaryOfElement_iff hhead]

/-- The binary form of what a binary name leads to has dots for its slashes. -/
theorem binaryOfInternal_internalOfElement (hsemicolon : ¬ [';'] <:+ e) :
    binaryOfInternal (internalOfElement e) = replaced '/' '.' e := by
  have hhead : (internalOfElement e).head? ≠ some '[' := by
    have helement : IsElement (fun _ => True) (internalOfElement e) :=
      isElement_internalOfElement fun _ => trivial
    exact helement.head?_ne
  rw [binaryOfInternal_element hhead]
  by_cases hkeyword : ∃ p : Primitive, e = p.keyword.toList
  · obtain ⟨p, rfl⟩ := hkeyword
    rw [internalOfElement_keyword, binaryOfElement_code, replaced_eq_self p.slash_notMem_keyword]
  · rw [not_exists] at hkeyword
    have htrim : (replaced '.' '/' e).rdropWhile (· = ';') = replaced '.' '/' e := by
      rwa [rdropWhile_eq_self_iff, suffix_replaced_iff (by decide) (by decide)]
    rw [internalOfElement_named hkeyword, binaryOfElement_named, htrim, replaced_replaced]

theorem internal_ofBinary {b : String} {n : Nat} (hb : b.toList = e ++ pairs n)
    (he : ¬ ['[', ']'] <:+ e) :
    (ofBinary b).internal.toList = List.replicate n '[' ++ internalOfElement e := by
  rw [ofBinary, String.toList_ofList, hb, internalOfReversed_pairs he]

theorem ofBinary_eq_iff {b : String} {t : TypeName} :
    ofBinary b = t ↔ internalOfReversed b.toList.reverse = t.internal.toList := by
  cases t
  rw [ofBinary, TypeName.mk.injEq, ← String.toList_inj, String.toList_ofList]

/-- What the way back restores.  A type name is what its binary form leads to iff it is a run of
    brackets followed by the code of a primitive type, or by an `L` and a class name that has no
    dot, does not end in a semicolon or in a pair of brackets and is not a keyword.  So the type of
    a binary name whose element type does not end in a semicolon is what its binary form leads to,
    and that form has dots in place of the slashes. -/
theorem ofBinary_binary_iff :
    (∀ t : TypeName, ofBinary t.binary = t ↔ Spelled Reversible t.internal.toList) ∧
    ∀ (b : String) (e : List Char) (n : Nat),
      b.toList = e ++ pairs n → ¬ ['[', ']'] <:+ e → ¬ [';'] <:+ e →
      (ofBinary b).binary = Text.replace '/' '.' b ∧
      ofBinary (ofBinary b).binary = ofBinary b := by
  have hiff : ∀ t : TypeName, ofBinary t.binary = t ↔ Spelled Reversible t.internal.toList := by
    intro t
    rw [ofBinary_eq_iff, binary, String.toList_ofList, internalOfReversed_binaryOfInternal_iff]
  refine ⟨hiff, ?_⟩
  intro b e n hb hbrackets hsemicolon
  have hinternal := internal_ofBinary hb hbrackets
  constructor
  · rw [← String.toList_inj, binary, String.toList_ofList, hinternal, binaryOfInternal_brackets,
      binaryOfInternal_internalOfElement hsemicolon, toList_replace, hb, replaced_append,
      replaced_eq_self (notMem_pairs (by decide) n)]
  · rw [hiff, hinternal]
    exact ⟨n, _, rfl, isElement_internalOfElement (reversible_replaced hbrackets hsemicolon)⟩

/-- An array of arrays, named with a slash and with a dot. -/
theorem ofBinary_binary_iff_maps :
    "java/util.Map[][]".toList = "java/util.Map".toList ++ pairs 2 ∧
    ¬ ['[', ']'] <:+ "java/util.Map".toList ∧ ¬ [';'] <:+ "java/util.Map".toList ∧
    (ofBinary "java/util.Map[][]").binary = "java.util.Map[][]" ∧
    ofBinary "java.util.Map[][]" = ofBinary "java/util.Map[][]" ∧
    Spelled Reversible (ofBinary "java/util.Map[][]").internal.toList := by
  have hb : "java/util.Map[][]".toList = "java/util.Map".toList ++ pairs 2 := by decide
  have hbrackets : ¬ ['[', ']'] <:+ "java/util.Map".toList := by decide
  have hsemicolon : ¬ [';'] <:+ "java/util.Map".toList := by decide
  obtain ⟨hbinary, hback⟩ := ofBinary_binary_iff.2 _ _ 2 hb hbrackets hsemicolon
  have hspelled := (ofBinary_binary_iff.1 _).mp hback
  have hdots : Text.replace '/' '.' "java/util.Map[][]" = "java.util.Map[][]" := by decide
  rw [hdots] at hbinary
  rw [hbinary] at hback
  exact ⟨hb, hbrackets, hsemicolon, hbinary, hback, hspelled⟩

-- A class with the name of a keyword and a class whose name ends in brackets are not restored.
example : ofBinary (TypeName.mk "Lint").binary = ⟨"I"⟩ := by decide

example : ofBinary (TypeName.mk "LMap[]").binary = ⟨"[LMap"⟩ := by decide

end TypeName
end StreamVerdict
