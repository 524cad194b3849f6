/-
  Settings that are written as a text are read back from it.

  The text is an outline, and the document that is read from it names every setting.  So nothing
  is left to the preset, and what is read is what was written, if it passes the check of the
  ranges.
-/
import StreamVerdict.Proofs.Json.Spelling
import StreamVerdict.Proofs.Settings.Overrides
import StreamVerdict.Proofs.Yaml.Lines

namespace StreamVerdict
namespace Yaml

/-! ### Fields of outlines -/

namespace Outline

def keys : Outline → List String
  | done => []
  | word k _ rest => k :: rest.keys
  | block k _ rest => k :: rest.keys

/-- The entries of an outline by their names. -/
def fields : Outline → Fields
  | done => []
  | word k v rest => (k, scalar .plain none v) :: rest.fields
  | block k inner rest => (k, map inner.entries) :: rest.fields

theorem map_fst_fields (o : Outline) : o.fields.map Prod.fst = o.keys := by
  induction o with
  | done => rfl
  | word k v rest ih => rw [fields, List.map_cons, ih, keys]
  | block k inner rest _ ih => rw [fields, List.map_cons, ih, keys]

theorem mapM_entries (d : Document) (o : Outline) :
    (o.entries.mapM fun e => do return (← (← d.node? e.1).text?, ← d.node? e.2)) =
      some o.fields := by
  induction o with
  | done => rfl
  | word k v rest ih =>
      rw [entries, List.mapM_cons, ih]
      rfl
  | block k inner rest _ ih =>
      rw [entries, List.mapM_cons, ih]
      rfl

/-- An outline is accepted as a mapping with fields if its keys are among their names, each at
    most once. -/
theorem fields?_entries (d : Document) {names : List String} {o : Outline}
    (hnames : ∀ k ∈ o.keys, k ∈ names) (hnodup : o.keys.Nodup) :
    d.fields? names (map o.entries) = some o.fields := by
  rw [← map_fst_fields] at hnames hnodup
  have hall : (o.fields.all fun f => f.1 ∈ names) = true := by
    rw [List.all_eq_true]
    intro f hf
    exact decide_eq_true (hnames f.1 (List.mem_map_of_mem hf))
  rw [Document.fields?, entries?, Option.bind_eq_bind, Option.bind_some, mapM_entries]
  exact if_pos ⟨hall, hnodup⟩

end Outline

namespace Fields

variable {α : Type} {f : Yaml → Option α} {fields : Fields} {name : String} {v : Yaml} {a : α}

theorem optional?_of_lookup (hlookup : fields.lookup name = some v)
    (hnull : v.isNull? = some false) (hf : f v = some a) :
    fields.optional? f name = some (some a) := by
  simp [optional?, hlookup, hnull, hf]

theorem orElse?_of_lookup (hlookup : fields.lookup name = some v) (hf : f v = some a) (d : α) :
    fields.orElse? f name d = some a := by
  simp [orElse?, hlookup, hf]

end Fields

/-! ### Numbers -/

section Number

/-- The value of a decimal digit. -/
theorem hexDigit?_of_isDigit {c : Char} (hc : c.isDigit) :
    Text.hexDigit? c = some (c.toNat - '0'.toNat) ∧ c.toNat - '0'.toNat < 10 := by
  refine ⟨if_pos hc, ?_⟩
  have hrange : c.toNat ≤ '9'.toNat := by
    simp only [Char.isDigit, Bool.and_eq_true, decide_eq_true_eq, UInt32.le_iff_toNat_le] at hc
    exact hc.2
  have hnine : '9'.toNat = 57 := rfl
  have hzero : '0'.toNat = 48 := rfl
  omega

theorem numeral?_of_digits {cs : List Char} (hne : cs ≠ []) (hcs : ∀ c ∈ cs, c.isDigit) :
    Text.numeral? 10 cs = some (Nat.ofDigitChars 10 cs 0) := by
  have hread : cs.mapM Text.hexDigit? = some (cs.map fun c => c.toNat - '0'.toNat) := by
    clear hne
    induction cs with
    | nil => rfl
    | cons c cs ih =>
        obtain ⟨hc, hrest⟩ := List.forall_mem_cons.mp hcs
        rw [List.mapM_cons, (hexDigit?_of_isDigit hc).1, ih hrest]
        rfl
  have hsmall : (cs.map fun c => c.toNat - '0'.toNat).all (· < 10) := by
    rw [List.all_map, List.all_eq_true]
    exact fun c hc => decide_eq_true (hexDigit?_of_isDigit (hcs c hc)).2
  rw [Text.numeral?, if_neg (by simpa using hne), hread]
  simp only [Option.bind_eq_bind, Option.bind_some, hsmall, if_true, List.foldl_map]
  rfl

theorem numeral?_decimal (n : Nat) : Text.numeral? 10 (Text.decimal n) = some n := by
  have hvalue : Nat.ofDigitChars 10 (Text.decimal n) 0 = n :=
    Nat.ofDigitChars_toDigits (by decide) (by decide)
  rw [numeral?_of_digits (Json.Token.decimal_ne_nil n) fun c => Json.Token.isDigit_of_mem_decimal,
    hvalue]

/-- Only zero is written with a zero in front, so the digits of a number are read in base ten. -/
theorem digits?_decimal (n : Nat) : digits? (Text.decimal n) = some n := by
  have hzero : ∀ ds, Text.decimal n = '0' :: ds → ds = [] :=
    fun ds hds => Json.Token.decimal_of_head_zero hds
  rw [digits?.eq_def]
  split
  · next heq => exact absurd (hzero _ heq) (List.cons_ne_nil _ _)
  · next heq => exact absurd (hzero _ heq) (List.cons_ne_nil _ _)
  · next heq => exact absurd (hzero _ heq) (List.cons_ne_nil _ _)
  · next heq =>
    have hvalue := numeral?_decimal n
    rw [heq] at hvalue
    exact hvalue
  · next hne heq => exact absurd (hzero _ heq) hne
  · exact numeral?_decimal n

theorem toList_toString (n : Nat) : (toString n).toList = Text.decimal n := Nat.toList_repr

theorem word64?_toString (n : UInt64) :
    word64? (scalar .plain none (toString n.toNat)) = some n := by
  obtain ⟨c, ds, hds, hc⟩ := Json.Token.exists_digit_decimal n.toNat
  have hsign : c ≠ '+' := by
    rintro rfl
    cases hc
  have hread : natBelow? UInt64.size (scalar .plain none (toString n.toNat)) = some n.toNat := by
    have hdigits := digits?_decimal n.toNat
    rw [hds] at hdigits
    simp only [natBelow?, word?, toList_toString, hds, Option.bind_eq_bind, Option.bind_some]
    split
    · next heq => exact absurd (List.cons.inj heq).1 hsign
    · rw [hdigits, Option.bind_some, if_pos n.toNat_lt_size]
  rw [word64?, hread, Option.map_some, UInt64.ofNat_toNat]

theorem isWord_toString (n : Nat) : IsWord (toString n) := by
  rw [IsWord, toList_toString]
  refine ⟨Json.Token.decimal_ne_nil n, ?_⟩
  intro c hc
  simp [isPlainChar, Char.isAlphanum, Json.Token.isDigit_of_mem_decimal hc]

/-- A number is not null. -/
theorem isNull?_toString (n : Nat) : (scalar .plain none (toString n)).isNull? = some false := by
  have hwords : ∀ w ∈ "" :: nullWords, w.toList.all Char.isDigit = true → w.toList = [] := by decide
  have hdigits : (toString n).toList.all Char.isDigit = true := by
    rw [toList_toString, List.all_eq_true]
    exact fun c hc => Json.Token.isDigit_of_mem_decimal hc
  have hnot : toString n ∉ "" :: nullWords := by
    intro hmem
    exact (isWord_toString n).1 (hwords _ hmem hdigits)
  rw [List.mem_cons] at hnot
  exact congrArg some (decide_eq_false hnot)

end Number
end Yaml

/-! ### Sections -/

/-- The section for the solver. -/
def SolverLimits.outline (l : SolverLimits) : Yaml.Outline :=
  .word "timeout_ms" (toString l.timeoutMs.toNat) <|
  .word "max_findings" (toString l.maxFindings.toNat) .done

theorem SolverLimits.ofYaml?_outline (d : Yaml.Document) (l : SolverLimits) :
    ofYaml? d (.map l.outline.entries) = some l := by
  have hfields : d.fields? ["timeout_ms", "max_findings"] (.map l.outline.entries) =
      some l.outline.fields :=
    Yaml.Outline.fields?_entries d (by show ∀ k ∈ ["timeout_ms", "max_findings"], _; decide)
      (by show ["timeout_ms", "max_findings"].Nodup; decide)
  have htimeout := fun standard => Yaml.Fields.orElse?_of_lookup
    (show l.outline.fields.lookup "timeout_ms" = _ from rfl) (Yaml.word64?_toString l.timeoutMs)
    standard
  have hfindings := fun standard => Yaml.Fields.orElse?_of_lookup
    (show l.outline.fields.lookup "max_findings" = _ from rfl)
    (Yaml.word64?_toString l.maxFindings) standard
  simp only [ofYaml?, hfields, htimeout, hfindings, Option.bind_eq_bind, Option.bind_some]
  rfl

theorem bool?_switch (b : Bool) : (Yaml.scalar .plain none (Settings.switch b)).bool? = some b := by
  cases b <;> rfl

/-- The section for the probe. -/
def ProbeSwitch.outline (p : ProbeSwitch) : Yaml.Outline :=
  .word "enabled" (Settings.switch p.enabled) .done

theorem ProbeSwitch.ofYaml?_outline (d : Yaml.Document) (p : ProbeSwitch) :
    ofYaml? d (.map p.outline.entries) = some p := by
  have hfields : d.fields? ["enabled"] (.map p.outline.entries) = some p.outline.fields :=
    Yaml.Outline.fields?_entries d (by show ∀ k ∈ ["enabled"], _; decide)
      (by show ["enabled"].Nodup; decide)
  have henabled : p.outline.fields.orElse? Yaml.bool? "enabled" true = some p.enabled :=
    Yaml.Fields.orElse?_of_lookup rfl (bool?_switch p.enabled) true
  simp only [ofYaml?, hfields, henabled, Option.bind_eq_bind, Option.bind_some]
  rfl

namespace Settings

/-! ### Documents -/

/-- Settings as an outline. -/
def outline (s : Settings) : Yaml.Outline :=
  .word "version" "1" <|
  .word "preset" s.preset.name <|
  .word "context_depth" (toString s.contextDepth.toNat) <|
  .block "typestate" s.typestate.outline <|
  .block "probe" s.probe.outline <|
  .word "run_typestate" (switch s.runTypestate) .done

theorem toText_eq (s : Settings) : s.toText = String.ofList (s.outline.text 0) := by
  refine String.toList_injective ?_
  rw [String.toList_ofList, toText, String.toList_join]
  simp only [lines, outline, SolverLimits.outline, ProbeSwitch.outline, Yaml.Outline.text,
    List.map_cons, List.map_nil, List.flatMap_cons, List.flatMap_nil, String.toList_append,
    List.append_assoc, List.append_nil, List.cons_append]
  rfl

theorem isPlain_outline (s : Settings) : s.outline.IsPlain := by
  have hpreset : Yaml.IsWord s.preset.name := by cases s.preset <;> decide
  have hswitch : ∀ b, Yaml.IsWord (switch b) := by
    intro b
    cases b <;> decide
  refine ⟨by decide, by decide, by decide, hpreset, by decide, Yaml.isWord_toString _, by decide,
    nofun, ⟨by decide, Yaml.isWord_toString _, by decide, Yaml.isWord_toString _, trivial⟩,
    by decide, nofun, ⟨by decide, hswitch _, trivial⟩, by decide, hswitch _, trivial⟩

/-- The document that names every setting. -/
def toDocument (s : Settings) : SettingsDocument :=
  { version := some 1
    preset := some s.preset.name
    contextDepth := some s.contextDepth
    typestate := some s.typestate
    probe := some s.probe
    runTypestate := some s.runTypestate }

theorem ofYaml?_outline (s : Settings) :
    SettingsDocument.ofYaml? (.ofRoot (.map s.outline.entries)) = some s.toDocument := by
  let d : Yaml.Document := .ofRoot (.map s.outline.entries)
  let fields := s.outline.fields
  have hfields : d.fields? SettingsDocument.names (.map s.outline.entries) = some fields :=
    Yaml.Outline.fields?_entries d (fun _ hk => hk)
      (by show SettingsDocument.names.Nodup; decide)
  have hversion : fields.optional? Yaml.word32? "version" = some (some 1) :=
    Yaml.Fields.optional?_of_lookup rfl rfl rfl
  have hpreset : fields.optional? Yaml.text? "preset" = some (some s.preset.name) :=
    Yaml.Fields.optional?_of_lookup rfl (by cases s.preset <;> rfl) rfl
  have hdepth : fields.optional? Yaml.word64? "context_depth" = some (some s.contextDepth) :=
    Yaml.Fields.optional?_of_lookup rfl (Yaml.isNull?_toString _) (Yaml.word64?_toString _)
  have htypestate : fields.optional? (SolverLimits.ofYaml? d) "typestate" =
      some (some s.typestate) :=
    Yaml.Fields.optional?_of_lookup rfl rfl (SolverLimits.ofYaml?_outline d s.typestate)
  have hprobe : fields.optional? (ProbeSwitch.ofYaml? d) "probe" = some (some s.probe) :=
    Yaml.Fields.optional?_of_lookup rfl rfl (ProbeSwitch.ofYaml?_outline d s.probe)
  have hrun : fields.optional? Yaml.bool? "run_typestate" = some (some s.runTypestate) :=
    Yaml.Fields.optional?_of_lookup rfl (by cases s.runTypestate <;> rfl)
      (bool?_switch s.runTypestate)
  have hroot : d.node? d.root = some (.map s.outline.entries) := rfl
  show SettingsDocument.ofYaml? d = _
  simp only [SettingsDocument.ofYaml?, hroot, hfields, hversion, hpreset, hdepth, htypestate,
    hprobe, hrun, Option.bind_eq_bind, Option.bind_some]
  rfl

/-- A document that names every setting leaves nothing to the preset. -/
theorem settings_toDocument (s : Settings) :
    s.toDocument.settings =
      match s.error? with
      | some e => .error e
      | none => .ok s := by
  have hselected : s.toDocument.selected = .ok s.preset := by
    show Preset.ofName s.preset.name = .ok s.preset
    cases s.preset <;> rfl
  rw [SettingsDocument.settings_eq, hselected]
  rfl

/-- Only ranges are checked. -/
theorem label_of_error? {s : Settings} {e : SettingsError} (h : s.error? = some e) :
    e.label = "Range" := by
  rw [error?] at h
  split at h
  · cases h
    rfl
  · split at h
    · cases h
      rfl
    · split at h
      · cases h
        rfl
      · cases h

/-- What is written is read back, and settings out of range are refused as the check refuses
    them. -/
theorem ofText_toText (s : Settings) :
    match s.error? with
    | some e => ofText s.toText = .error e ∧ e.label = "Range"
    | none => ofText s.toText = .ok s := by
  have hdepth : s.outline.depth < Yaml.maxDepth := by
    show 1 < Yaml.maxDepth
    decide
  have hparse : Yaml.parse? s.toText = some (.ofRoot (.map s.outline.entries)) := by
    rw [toText_eq]
    exact Yaml.Outline.parse?_text s.isPlain_outline nofun hdepth
  have hread : ofText s.toText = s.toDocument.settings := by
    rw [ofText, hparse, Option.bind_some, ofYaml?_outline]
  rw [hread, settings_toDocument]
  cases herror : s.error? with
  | none => rfl
  | some e => exact ⟨rfl, label_of_error? herror⟩

end Settings
end StreamVerdict
