/-
  Bodies come back from their JSON values.

  The bodies whose numbers fit are those that are read, and exactly these come back from what is
  written for them, in whatever order the entries of the symbol table and the members of the
  other objects stand.
-/
import StreamVerdict.Proofs.Body.Symbols
import StreamVerdict.Proofs.Body.Widths
import StreamVerdict.Proofs.Wire.Codec
import StreamVerdict.Wire.Body

namespace StreamVerdict

open Wire LawfulWire SettledWire

/-! ### Types and methods -/

instance : LawfulWire Loader where
  decode_rearranged l j hj := by
    rw [hj.text_inv]
    cases l <;> rfl

instance : SettledWire Loader := ⟨fun _ => rfl⟩

instance : LawfulWire TypeName where
  decode_rearranged n j hj := by
    rw [hj.text_inv]
    rfl

instance : SettledWire TypeName := ⟨fun _ => rfl⟩

instance : LawfulWire TypeRef where
  decode_rearranged t j hj := by
    refine Record.bind_read (List.Sublist.refl _) (by decide) hj fun ms hms => ?_
    iterate 2 refine Record.bind_required hms (by decide) rfl ?_
    rfl

instance : SettledWire TypeRef where
  settled t := .obj (.cons (settled t.loader) (.cons (settled t.name) .nil))

instance : LawfulWire MethodRef where
  decode_rearranged m j hj := by
    refine Record.bind_read (List.Sublist.refl _) (by decide) hj fun ms hms => ?_
    iterate 4 refine Record.bind_required hms (by decide) rfl ?_
    rfl

instance : SettledWire MethodRef where
  settled m := .obj (.cons (settled m.declaringClass) (.cons (settled m.name)
    (.cons (settled m.parameterTypes) (.cons (settled m.returnType) .nil))))

instance : LawfulWire Invocation where
  decode_rearranged k _ := oneOf_name (by decide) (by cases k <;> decide)

instance : SettledWire Invocation := ⟨fun _ => rfl⟩

/-! ### Places in code -/

theorem NewSite.codec : Codec (encode : NewSite → Json) decode NewSite.Fits where
  back s hs j hj := by
    refine Record.bind_read (List.Sublist.refl _) (by decide) hj fun ms hms => ?_
    refine Record.bind_requiredBy hms (by decide) rfl (Codec.word32.back _ hs) ?_
    refine Record.bind_required hms (by decide) rfl ?_
    rfl
  fits j s h := by
    obtain ⟨r, -, hfields⟩ := Option.bind_eq_some_iff.mp h
    obtain ⟨pc, hpc, hfields⟩ := Option.bind_eq_some_iff.mp hfields
    obtain ⟨t, -, hfields⟩ := Option.bind_eq_some_iff.mp hfields
    cases hfields
    exact Codec.word32.fits_of_requiredBy hpc

instance : SettledWire NewSite where
  settled s := .obj (.cons (.nat _) (.cons (settled s.declaredType) .nil))

theorem CallSite.codec : Codec (encode : CallSite → Json) decode CallSite.Fits where
  back s hs j hj := by
    refine Record.bind_read (List.Sublist.refl _) (by decide) hj fun ms hms => ?_
    refine Record.bind_requiredBy hms (by decide) rfl (Codec.word32.back _ hs) ?_
    iterate 2 refine Record.bind_required hms (by decide) rfl ?_
    rfl
  fits j s h := by
    obtain ⟨r, -, hfields⟩ := Option.bind_eq_some_iff.mp h
    obtain ⟨pc, hpc, hfields⟩ := Option.bind_eq_some_iff.mp hfields
    obtain ⟨m, -, hfields⟩ := Option.bind_eq_some_iff.mp hfields
    obtain ⟨k, -, hfields⟩ := Option.bind_eq_some_iff.mp hfields
    cases hfields
    exact Codec.word32.fits_of_requiredBy hpc

instance : SettledWire CallSite where
  settled s :=
    .obj (.cons (.nat _) (.cons (settled s.declaredTarget) (.cons (settled s.kind) .nil)))

/-! ### Instructions and merges -/

theorem not_rearranged_nat_null (n : Nat) : ¬ (Json.nat n).Rearranged .null := nofun

/-- What is written for an instruction is tagged, and the rest is a record that is the same
    after it was set aside. -/
theorem Instruction.codec : Codec (encode : Instruction → Json) decode Instruction.Fits where
  back ins hins j hj := by
    cases ins with
    | new i v site line =>
        obtain ⟨hi, hv, hsite⟩ := hins
        refine bind_untag (by simp) ?_ hj fun j hj => ?_
        · exact .cons (.nat i) (.cons (.nat v) (.cons (settled site) (.cons (settled line) .nil)))
        · refine Record.bind_read (List.Sublist.refl _) (by decide) hj fun ms hms => ?_
          refine Record.bind_requiredBy hms (by decide) rfl (Codec.word64.back i hi) ?_
          refine Record.bind_requiredBy hms (by decide) rfl (Codec.word32.back v hv) ?_
          refine Record.bind_requiredBy hms (by decide) rfl (NewSite.codec.back site hsite) ?_
          refine Record.bind_required hms (by decide) rfl ?_
          rfl
    | invoke i v args site line =>
        obtain ⟨hi, hv, hargs, hsite⟩ := hins
        refine bind_untag (by simp) ?_ hj fun j hj => ?_
        · exact .cons (.nat i) (.cons (.ofOption .nat v) (.cons (.ofList .nat args)
            (.cons (settled site) (.cons (settled line) .nil))))
        · refine Record.bind_read (List.Sublist.refl _) (by decide) hj fun ms hms => ?_
          refine Record.bind_requiredBy hms (by decide) rfl (Codec.word64.back i hi) ?_
          refine Record.bind_optionalBy hms (by decide) rfl
            (Codec.word32.optionOf_ofOption not_rearranged_nat_null hv) ?_
          refine Record.bind_requiredBy hms (by decide) rfl (Codec.word32.listOf.back args hargs) ?_
          refine Record.bind_requiredBy hms (by decide) rfl (CallSite.codec.back site hsite) ?_
          refine Record.bind_required hms (by decide) rfl ?_
          rfl
    | ret i v line =>
        obtain ⟨hi, hv⟩ := hins
        refine bind_untag (by simp) ?_ hj fun j hj => ?_
        · exact .cons (.nat i) (.cons (.ofOption .nat v) (.cons (settled line) .nil))
        · refine Record.bind_read (List.Sublist.refl _) (by decide) hj fun ms hms => ?_
          refine Record.bind_requiredBy hms (by decide) rfl (Codec.word64.back i hi) ?_
          refine Record.bind_optionalBy hms (by decide) rfl
            (Codec.word32.optionOf_ofOption not_rearranged_nat_null hv) ?_
          refine Record.bind_required hms (by decide) rfl ?_
          rfl
  fits j ins h := by
    obtain ⟨⟨tag, rest⟩, -, hcase⟩ := Option.bind_eq_some_iff.mp h
    split at hcase
    · obtain ⟨r, -, hfields⟩ := Option.bind_eq_some_iff.mp hcase
      obtain ⟨i, hi, hfields⟩ := Option.bind_eq_some_iff.mp hfields
      obtain ⟨v, hv, hfields⟩ := Option.bind_eq_some_iff.mp hfields
      obtain ⟨site, hsite, hfields⟩ := Option.bind_eq_some_iff.mp hfields
      obtain ⟨line, -, hfields⟩ := Option.bind_eq_some_iff.mp hfields
      cases hfields
      exact ⟨Codec.word64.fits_of_requiredBy hi, Codec.word32.fits_of_requiredBy hv,
        NewSite.codec.fits_of_requiredBy hsite⟩
    · obtain ⟨r, -, hfields⟩ := Option.bind_eq_some_iff.mp hcase
      obtain ⟨i, hi, hfields⟩ := Option.bind_eq_some_iff.mp hfields
      obtain ⟨v, hv, hfields⟩ := Option.bind_eq_some_iff.mp hfields
      obtain ⟨args, hargs, hfields⟩ := Option.bind_eq_some_iff.mp hfields
      obtain ⟨site, hsite, hfields⟩ := Option.bind_eq_some_iff.mp hfields
      obtain ⟨line, -, hfields⟩ := Option.bind_eq_some_iff.mp hfields
      cases hfields
      exact ⟨Codec.word64.fits_of_requiredBy hi, Codec.word32.fits_of_optionalBy hv,
        Codec.word32.listOf.fits_of_requiredBy hargs, CallSite.codec.fits_of_requiredBy hsite⟩
    · obtain ⟨r, -, hfields⟩ := Option.bind_eq_some_iff.mp hcase
      obtain ⟨i, hi, hfields⟩ := Option.bind_eq_some_iff.mp hfields
      obtain ⟨v, hv, hfields⟩ := Option.bind_eq_some_iff.mp hfields
      obtain ⟨line, -, hfields⟩ := Option.bind_eq_some_iff.mp hfields
      cases hfields
      exact ⟨Codec.word64.fits_of_requiredBy hi, Codec.word32.fits_of_optionalBy hv⟩
    · cases hcase

theorem Phi.codec : Codec (encode : Phi → Json) decode Phi.Fits where
  back p hp j hj := by
    refine Record.bind_read (List.Sublist.refl _) (by decide) hj fun ms hms => ?_
    refine Record.bind_requiredBy hms (by decide) rfl (Codec.word32.back p.result hp.1) ?_
    refine Record.bind_requiredBy hms (by decide) rfl (Codec.word32.listOf.back p.uses hp.2) ?_
    rfl
  fits j p h := by
    obtain ⟨r, -, hfields⟩ := Option.bind_eq_some_iff.mp h
    obtain ⟨v, hv, hfields⟩ := Option.bind_eq_some_iff.mp hfields
    obtain ⟨uses, huses, hfields⟩ := Option.bind_eq_some_iff.mp hfields
    cases hfields
    exact ⟨Codec.word32.fits_of_requiredBy hv, Codec.word32.listOf.fits_of_requiredBy huses⟩

/-! ### Symbol tables -/

theorem Definition.codec : Codec (encode : Definition → Json) decode Definition.Fits where
  back d hd j hj := by
    cases d with
    | param i t =>
        refine bind_untag (by simp) (.cons (.nat i) (.cons (settled t) .nil)) hj fun j hj => ?_
        refine Record.bind_read (List.Sublist.refl _) (by decide) hj fun ms hms => ?_
        refine Record.bind_requiredBy hms (by decide) rfl (Codec.word64.back i hd) ?_
        refine Record.bind_required hms (by decide) rfl ?_
        rfl
    | null =>
        refine bind_untag (by simp) .nil hj fun j hj => ?_
        obtain ⟨ns, rfl, -⟩ := hj.obj_inv
        rfl
    | instruction i =>
        refine bind_untag (by simp) (.cons (.nat i) .nil) hj fun j hj => ?_
        refine Record.bind_read (List.Sublist.refl _) (by decide) hj fun ms hms => ?_
        refine Record.bind_requiredBy hms (by decide) rfl (Codec.word64.back i hd) ?_
        rfl
    | phi i =>
        refine bind_untag (by simp) (.cons (.nat i) .nil) hj fun j hj => ?_
        refine Record.bind_read (List.Sublist.refl _) (by decide) hj fun ms hms => ?_
        refine Record.bind_requiredBy hms (by decide) rfl (Codec.word64.back i hd) ?_
        rfl
  fits j d h := by
    obtain ⟨⟨tag, rest⟩, -, hcase⟩ := Option.bind_eq_some_iff.mp h
    split at hcase
    · obtain ⟨r, -, hfields⟩ := Option.bind_eq_some_iff.mp hcase
      obtain ⟨i, hi, hfields⟩ := Option.bind_eq_some_iff.mp hfields
      obtain ⟨t, -, hfields⟩ := Option.bind_eq_some_iff.mp hfields
      cases hfields
      exact Codec.word64.fits_of_requiredBy hi
    · obtain ⟨-, -, hfields⟩ := Option.bind_eq_some_iff.mp hcase
      cases hfields
      exact trivial
    · obtain ⟨r, -, hfields⟩ := Option.bind_eq_some_iff.mp hcase
      obtain ⟨i, hi, hfields⟩ := Option.bind_eq_some_iff.mp hfields
      cases hfields
      exact Codec.word64.fits_of_requiredBy hi
    · obtain ⟨r, -, hfields⟩ := Option.bind_eq_some_iff.mp hcase
      obtain ⟨i, hi, hfields⟩ := Option.bind_eq_some_iff.mp hfields
      cases hfields
      exact Codec.word64.fits_of_requiredBy hi
    · cases hcase

namespace SymbolTable

/-- The entries are read in the order in which they stand, and put in ascending order. -/
theorem codec : Codec (encode : SymbolTable → Json) decode Fits where
  back t ht j hj := by
    refine Record.bind_read (List.Sublist.refl _) (by decide) hj fun ms hms => ?_
    refine Record.bind_requiredBy_of_forall hms (by decide) rfl fun values hvalues => ?_
    obtain ⟨given, hgiven, hperm⟩ :=
      Definition.codec.numberedOf_rearranged t.nodup_values ht.1 hvalues
    rw [hgiven, Option.bind_some]
    refine Record.bind_requiredBy hms (by decide) rfl (Codec.word32.back t.maxValue ht.2) ?_
    exact congrArg some (ofEntries_of_perm hperm)
  fits j t h := by
    obtain ⟨r, -, hfields⟩ := Option.bind_eq_some_iff.mp h
    obtain ⟨given, hgiven, hfields⟩ := Option.bind_eq_some_iff.mp hfields
    obtain ⟨n, hn, hfields⟩ := Option.bind_eq_some_iff.mp hfields
    cases hfields
    obtain ⟨values, hvalues⟩ := Codec.exists_of_requiredBy hgiven
    refine ⟨?_, Codec.word32.fits_of_requiredBy hn⟩
    intro e he
    exact Definition.codec.fits_of_numberedOf hvalues e (mem_of_mem_sort he)

end SymbolTable

/-! ### Bodies -/

namespace Body

theorem codec : Codec (encode : Body → Json) decode Fits where
  back b hb j hj := by
    obtain ⟨hparams, hinstructions, hphis, hsymbols⟩ := hb
    refine Record.bind_read (List.Sublist.refl _) (by decide) hj fun ms hms => ?_
    iterate 2 refine Record.bind_required hms (by decide) rfl ?_
    refine Record.bind_requiredBy hms (by decide) rfl (Codec.word32.listOf.back _ hparams) ?_
    refine Record.bind_requiredBy hms (by decide) rfl (Instruction.codec.listOf.back _ hinstructions) ?_
    refine Record.bind_requiredBy hms (by decide) rfl (Phi.codec.listOf.back _ hphis) ?_
    refine Record.bind_requiredBy hms (by decide) rfl (SymbolTable.codec.back _ hsymbols) ?_
    rfl
  fits j b h := by
    obtain ⟨r, -, hfields⟩ := Option.bind_eq_some_iff.mp h
    obtain ⟨m, -, hfields⟩ := Option.bind_eq_some_iff.mp hfields
    obtain ⟨isStatic, -, hfields⟩ := Option.bind_eq_some_iff.mp hfields
    obtain ⟨params, hparams, hfields⟩ := Option.bind_eq_some_iff.mp hfields
    obtain ⟨instructions, hinstructions, hfields⟩ := Option.bind_eq_some_iff.mp hfields
    obtain ⟨phis, hphis, hfields⟩ := Option.bind_eq_some_iff.mp hfields
    obtain ⟨symbols, hsymbols, hfields⟩ := Option.bind_eq_some_iff.mp hfields
    cases hfields
    exact ⟨Codec.word32.listOf.fits_of_requiredBy hparams,
      Instruction.codec.listOf.fits_of_requiredBy hinstructions,
      Phi.codec.listOf.fits_of_requiredBy hphis, SymbolTable.codec.fits_of_requiredBy hsymbols⟩

/-- Exactly the bodies that fit come back from what is written for them, in whatever order the
    entries of the table and the members of the other objects stand.  Whatever is read as a body
    is such a body, and is read again from what is written for it. -/
theorem decode_encode_decode :
    (∀ b : Body, b.Fits ↔ ∀ j : Json, (encode b).Rearranged j → decode j = some b) ∧
    ∀ (j : Json) (b : Body), decode j = some b →
      b.Fits ∧ ∀ k : Json, (encode b).Rearranged k → decode k = some b := by
  have hback : ∀ b : Body, b.Fits → ∀ j : Json, (encode b).Rearranged j → decode j = some b :=
    codec.back
  constructor
  · intro b
    exact ⟨hback b, fun h => codec.fits (encode b) b (h (encode b) (.same (encode b)))⟩
  · intro j b hj
    have hfits : b.Fits := codec.fits j b hj
    exact ⟨hfits, hback b hfits⟩

/-- A body with every kind of instruction and of definition, with the greatest value and the
    greatest position that there are. -/
def variety : Body :=
  let apple : TypeRef := ⟨.application, ⟨"Lshop/Apple"⟩⟩
  let pick : MethodRef := ⟨apple, "pick \x22é\x22\n", [apple.name], TypeName.void⟩
  { method := pick
    isStatic := true
    params := [1]
    instructions :=
      [ .new 0 2 ⟨0, apple⟩ 3, .invoke 1 none [1, 2] ⟨1, pick, .interface⟩ 4,
        .invoke 18446744073709551615 (some 4294967295) [] ⟨4294967295, pick, .static⟩ 4294967295,
        .ret 3 (some 10) 5, .ret 4 none 6 ]
    phis := [⟨10, [1, 3]⟩, ⟨5, []⟩]
    symbols :=
      ⟨[ (1, .param 0 apple.name), (2, .instruction 0), (3, .null), (10, .phi 0),
        (4294967295, .instruction 18446744073709551615) ], 4294967295, by decide⟩ }

/-- In the order of names the value ten stands behind the value one. -/
theorem decode_encode_decode_variety :
    variety.Fits ∧ decode (encode variety) = some variety ∧
      decode (encode variety).sorted = some variety := by
  have hfits : variety.Fits := by decide +kernel
  have hback := (decode_encode_decode.1 variety).mp hfits
  exact ⟨hfits, hback _ (.same _), hback _ (Json.rearranged_sorted _)⟩

end Body
end StreamVerdict
