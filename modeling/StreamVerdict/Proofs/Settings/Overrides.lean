/-
  What a document of settings says, and what it leaves to the preset.

  A setting has a path in the document: a name, or the name of a section and a name in it.  What
  stands under the path is the value of the setting, and where nothing stands the preset gives the
  value.  There is one exception.  A section is read by itself, before the preset is known, and so
  a section for the solver that leaves out the time limit has that of the balanced preset.
-/
import StreamVerdict.Proofs.Data.Fold
import StreamVerdict.Proofs.Data.OrdSet
import StreamVerdict.Settings.Document

namespace StreamVerdict

/-- The results of a function that may fail are those of the members, if none fails. -/
theorem mem_of_mapM_eq_some {α β : Type} {f : α → Option β} {as : List α} {bs : List β}
    (h : as.mapM f = some bs) {b : β} : b ∈ bs ↔ ∃ a ∈ as, f a = some b := by
  induction as generalizing bs with
  | nil =>
      cases h
      simp
  | cons a as ih =>
      rw [List.mapM_cons] at h
      simp only [Option.bind_eq_bind, Option.bind_eq_some_iff] at h
      obtain ⟨b', hfirst, bs', hrest, hbs⟩ := h
      cases hbs
      have hhead : b = b' ↔ f a = some b := by rw [hfirst, Option.some.injEq, eq_comm]
      simp only [List.mem_cons, exists_eq_or_imp, hhead, ih hrest]

/-- A value that passes a test is there. -/
theorem exists_some_of_any {α : Type} {x : Option α} {P : α → Prop} [DecidablePred P]
    (h : (x.any fun a => decide (P a)) = true) : ∃ a, x = some a ∧ P a := by
  cases x with
  | none => cases h
  | some a => exact ⟨a, rfl, of_decide_eq_true h⟩

namespace Yaml

/-! ### What stands in a document -/

namespace Document

/-- The mapping `y` has an entry with this name and value.  Aliases are replaced by what they stand
    for. -/
def HasField (d : Document) (y : Yaml) (name : String) (v : Yaml) : Prop :=
  ∃ entries, y.entries? = some entries ∧
    ∃ e ∈ entries, (d.node? e.1).bind text? = some name ∧ d.node? e.2 = some v

/-- The value `v` stands in `y` under a path of names.  Null does not count. -/
def Holds (d : Document) (y : Yaml) : List String → Yaml → Prop
  | [], v => v = y
  | name :: path, v => ∃ w, d.HasField y name w ∧ w.isNull? ≠ some true ∧ d.Holds w path v

/-- The document has the value `v` under a path of names. -/
def Says (d : Document) (path : List String) (v : Yaml) : Prop :=
  ∃ y, d.node? d.root = some y ∧ d.Holds y path v

/-- Whether anything stands in `y` under a path. -/
def holdsAny (d : Document) (y : Yaml) : List String → Bool
  | [] => true
  | name :: path =>
    (y.entries?.getD []).any fun e =>
      decide ((d.node? e.1).bind text? = some name) &&
        (d.node? e.2).any fun w => decide (w.isNull? ≠ some true) && d.holdsAny w path

variable {d : Document} {y v : Yaml} {name inner : String} {names : List String} {fields : Fields}

theorem holdsAny_iff {path : List String} : d.holdsAny y path = true ↔ ∃ v, d.Holds y path v := by
  induction path generalizing y with
  | nil => simp [holdsAny, Holds]
  | cons name path ih =>
      cases hentries : y.entries? with
      | none => simp [holdsAny, Holds, HasField, hentries]
      | some entries =>
          simp only [holdsAny, Holds, HasField, hentries, Option.getD_some, List.any_eq_true,
            Bool.and_eq_true, decide_eq_true_eq, Option.any_eq_true, ih, Option.some.injEq,
            exists_eq_left']
          constructor
          · rintro ⟨e, he, hname, w, hw, hnull, v, hv⟩
            exact ⟨v, w, ⟨e, he, hname, hw⟩, hnull, hv⟩
          · rintro ⟨v, w, ⟨e, he, hname, hw⟩, hnull, hv⟩
            exact ⟨e, he, hname, w, hw, hnull, v, hv⟩

instance (d : Document) (path : List String) : Decidable (∃ v, d.Says path v) :=
  decidable_of_iff (((d.node? d.root).any fun y => d.holdsAny y path) = true) <| by
    simp only [Option.any_eq_true, holdsAny_iff, Says]
    constructor
    · rintro ⟨y, hy, v, hv⟩
      exact ⟨v, y, hy, hv⟩
    · rintro ⟨v, y, hy, hv⟩
      exact ⟨y, hy, v, hv⟩

/-- A mapping that is accepted has no field twice, so that what is looked up is all there is. -/
theorem hasField_iff (h : d.fields? names y = some fields) :
    d.HasField y name v ↔ fields.lookup name = some v := by
  rw [fields?] at h
  simp only [Option.bind_eq_bind, Option.bind_eq_some_iff] at h
  obtain ⟨entries, hentries, fields', hmap, hif⟩ := h
  split at hif
  · next hok =>
    cases hif
    have hmem : (name, v) ∈ fields ↔ d.HasField y name v := by
      rw [mem_of_mapM_eq_some hmap, HasField]
      simp only [hentries, Option.some.injEq, exists_eq_left', Option.bind_eq_some_iff,
        Option.pure_def, Prod.mk.injEq]
      refine exists_congr fun e => and_congr_right fun _ => ?_
      constructor
      · rintro ⟨w, hw, k, hk, u, hu, rfl, rfl⟩
        exact ⟨⟨w, hw, hk⟩, hu⟩
      · rintro ⟨⟨w, hw, hk⟩, hu⟩
        exact ⟨w, hw, name, hk, v, hu, rfl, rfl⟩
    rw [← hmem]
    exact ⟨lookup_of_mem hok.2, mem_of_lookup⟩
  · cases hif

/-- What an accepted document says under a name. -/
theorem says_name_iff (hroot : d.node? d.root = some y) (h : d.fields? names y = some fields) :
    d.Says [name] v ↔ fields.lookup name = some v ∧ v.isNull? ≠ some true := by
  simp only [Says, Holds, hroot, hasField_iff h, Option.some.injEq, exists_eq_left']
  constructor
  · rintro ⟨w, hw, hnull, rfl⟩
    exact ⟨hw, hnull⟩
  · rintro ⟨hv, hnull⟩
    exact ⟨v, hv, hnull, rfl⟩

/-- What a document says in a section. -/
theorem says_inner_iff :
    d.Says [name, inner] v ↔
      ∃ m, d.Says [name] m ∧ d.HasField m inner v ∧ v.isNull? ≠ some true := by
  constructor
  · rintro ⟨y, hy, m, hm, hmnull, w, hw, hnull, rfl⟩
    exact ⟨m, ⟨y, hy, m, hm, hmnull, rfl⟩, hw, hnull⟩
  · rintro ⟨m, ⟨y, hy, m', hm, hmnull, rfl⟩, hv, hnull⟩
    exact ⟨y, hy, m, hm, hmnull, v, hv, hnull, rfl⟩

end Document

/-! ### Fields that may be left out -/

/-- Null is no number and no truth value. -/
theorem reads_of_isNull? {v : Yaml} (h : v.isNull? = some true) :
    v.word64? = none ∧ v.bool? = none := by
  -- Only a plain scalar is null, and there are five spellings.
  have hspelled : ∃ tag, ∃ s ∈ "" :: nullWords, v = scalar .plain tag s := by
    cases v with
    | map _ => cases h
    | anchored _ _ => cases h
    | «alias» _ => cases h
    | scalar style tag s =>
        cases style with
        | plain =>
            refine ⟨tag, s, ?_, rfl⟩
            cases tag with
            | none => simpa [isNull?] using h
            | some tag =>
                rw [isNull?] at h
                split at h
                · split at h
                  · next hword => exact List.mem_cons_of_mem _ hword
                  · cases h
                · cases h
        | single => cases h
        | double => cases h
        | literal => cases h
        | folded => cases h
  obtain ⟨tag, s, hs, rfl⟩ := hspelled
  simp only [nullWords, List.mem_cons, List.not_mem_nil, or_false] at hs
  rcases hs with rfl | rfl | rfl | rfl | rfl <;> exact ⟨rfl, rfl⟩

namespace Fields

variable {α : Type} {f : Yaml → Option α} {fields : Fields} {name : String}

theorem optional?_cases {r : Option α} (h : fields.optional? f name = some r) :
    (r = none ∧ ∀ v, fields.lookup name = some v → v.isNull? = some true) ∨
    ∃ v a, fields.lookup name = some v ∧ v.isNull? ≠ some true ∧ f v = some a ∧ r = some a := by
  rw [optional?] at h
  cases hlookup : fields.lookup name with
  | none =>
      rw [hlookup] at h
      cases h
      exact Or.inl ⟨rfl, fun v hv => by cases hv⟩
  | some v =>
      simp only [hlookup, Option.bind_eq_bind, Option.bind_eq_some_iff] at h
      obtain ⟨isNull, hnull, hr⟩ := h
      cases isNull with
      | true =>
          cases hr
          exact Or.inl ⟨rfl, fun w hw => by cases hw; exact hnull⟩
      | false =>
          simp only [Bool.false_eq_true, if_false, Option.bind_eq_some_iff] at hr
          obtain ⟨a, ha, hr⟩ := hr
          cases hr
          exact Or.inr ⟨v, a, rfl, by rw [hnull]; simp, ha, rfl⟩

theorem orElse?_cases (hf : ∀ v, v.isNull? = some true → f v = none) {a standard : α}
    (h : fields.orElse? f name standard = some a) :
    (a = standard ∧ fields.lookup name = none) ∨
    ∃ v, fields.lookup name = some v ∧ v.isNull? ≠ some true ∧ f v = some a := by
  rw [orElse?] at h
  cases hlookup : fields.lookup name with
  | none =>
      rw [hlookup] at h
      cases h
      exact Or.inl ⟨rfl, rfl⟩
  | some v =>
      simp only [hlookup] at h
      refine Or.inr ⟨v, rfl, ?_, h⟩
      intro hnull
      rw [hf v hnull] at h
      cases h

end Fields

/-! ### Values that a document decides -/

namespace Document

/-- What stands under the path is the value, and the standard value holds if nothing stands
    there. -/
structure Decides {α : Type} (d : Document) (path : List String) (read? : Yaml → Option α)
    (value standard : α) : Prop where
  given : ∀ v, d.Says path v → read? v = some value
  omitted : (¬ ∃ v, d.Says path v) → value = standard

variable {α β : Type} {d : Document} {y : Yaml} {name inner : String} {names : List String}
  {fields : Fields}

theorem Decides.map {path : List String} {f : Yaml → Option α} {value standard : α}
    (h : d.Decides path f value standard) (g : α → β) :
    d.Decides path (fun v => (f v).map g) (g value) (g standard) where
  given := fun v hv => by rw [h.given v hv, Option.map_some]
  omitted := fun hnone => by rw [h.omitted hnone]

theorem decides_of_optional? (hroot : d.node? d.root = some y)
    (hfields : d.fields? names y = some fields) {f : Yaml → Option α} {r : Option α}
    (h : fields.optional? f name = some r) (standard : α) :
    d.Decides [name] f (r.getD standard) standard := by
  rcases Fields.optional?_cases h with ⟨rfl, hnull⟩ | ⟨w, a, hlookup, hnull, ha, rfl⟩
  · refine ⟨?_, fun _ => rfl⟩
    intro v hv
    obtain ⟨hlookup, hv⟩ := (says_name_iff hroot hfields).mp hv
    exact absurd (hnull v hlookup) hv
  · refine ⟨?_, ?_⟩
    · intro v hv
      have hlookup' := ((says_name_iff hroot hfields).mp hv).1
      rw [hlookup] at hlookup'
      cases hlookup'
      exact ha
    · intro hnone
      exact absurd ⟨w, (says_name_iff hroot hfields).mpr ⟨hlookup, hnull⟩⟩ hnone

/-- A value in a section: a section that is there has its own standard value. -/
theorem Decides.within {readSection? : Yaml → Option β} {outer base : β}
    (hsection : d.Decides [name] readSection? outer base) {f : Yaml → Option α} {get : β → α}
    (hf : ∀ v, v.isNull? = some true → f v = none) (own : α) {standard : α}
    (hread : ∀ m, readSection? m = some outer → ∃ names fields, d.fields? names m = some fields ∧
      fields.orElse? f inner own = some (get outer))
    (hown : (∃ m, d.Says [name] m) → own = standard)
    (hbase : (¬ ∃ m, d.Says [name] m) → get base = standard) :
    d.Decides [name, inner] f (get outer) standard := by
  refine ⟨?_, ?_⟩
  · intro v hv
    obtain ⟨m, hm, hfield, hnull⟩ := says_inner_iff.mp hv
    obtain ⟨names, fields, hfields, horElse⟩ := hread m (hsection.given m hm)
    rw [hasField_iff hfields] at hfield
    rcases Fields.orElse?_cases hf horElse with ⟨-, hnone⟩ | ⟨w, hw, -, hvalue⟩
    · rw [hfield] at hnone
      cases hnone
    · rw [hfield] at hw
      cases hw
      exact hvalue
  · intro hnone
    by_cases hthere : ∃ m, d.Says [name] m
    · obtain ⟨m, hm⟩ := hthere
      obtain ⟨names, fields, hfields, horElse⟩ := hread m (hsection.given m hm)
      rcases Fields.orElse?_cases hf horElse with ⟨hvalue, -⟩ | ⟨w, hw, hnull, -⟩
      · rw [hvalue]
        exact hown ⟨m, hm⟩
      · refine absurd ⟨w, says_inner_iff.mpr ⟨m, hm, ?_, hnull⟩⟩ hnone
        exact (hasField_iff hfields).mpr hw
    · rw [hsection.omitted hthere]
      exact hbase hthere

end Document
end Yaml

/-! ### Documents of settings -/

namespace SettingsDocument

variable {d : Yaml.Document} {doc : SettingsDocument} {s : Settings}

/-- A document that is read has only the known fields, and these are what is read. -/
theorem ofYaml?_eq_some (h : ofYaml? d = some doc) :
    ∃ y fields, d.node? d.root = some y ∧ d.fields? names y = some fields ∧
      fields.optional? Yaml.text? "preset" = some doc.preset ∧
      fields.optional? Yaml.word64? "context_depth" = some doc.contextDepth ∧
      fields.optional? (SolverLimits.ofYaml? d) "typestate" = some doc.typestate ∧
      fields.optional? (ProbeSwitch.ofYaml? d) "probe" = some doc.probe ∧
      fields.optional? Yaml.bool? "run_typestate" = some doc.runTypestate := by
  rw [ofYaml?] at h
  simp only [Option.bind_eq_bind, Option.bind_eq_some_iff] at h
  obtain ⟨y, hy, fields, hfields, version, -, preset, hpreset, contextDepth, hdepth, typestate,
    htypestate, probe, hprobe, runTypestate, hrun, hdoc⟩ := h
  cases hdoc
  exact ⟨y, fields, hy, hfields, hpreset, hdepth, htypestate, hprobe, hrun⟩

/-- The preset that a document selects; the balanced one if it names none. -/
def selected (doc : SettingsDocument) : Except SettingsError Preset :=
  match doc.preset with
  | none => .ok .balanced
  | some name => Preset.ofName name

/-- Version, preset and ranges are checked in this order. -/
theorem settings_eq (doc : SettingsDocument) :
    doc.settings =
      match doc.version with
      | none => .error .missingVersion
      | some v =>
        if v = 1 then do
          let p ← doc.selected
          match (doc.overlay p).error? with
          | some e => .error e
          | none => .ok (doc.overlay p)
        else .error (.unsupportedVersion v) := by
  rw [settings, selected]
  cases doc.version with
  | none => rfl
  | some v =>
      by_cases hv : v = 1
      · simp only [ne_eq, hv, not_true_eq_false, if_false, if_true]
        cases doc.preset with
        | none => rfl
        | some name => rfl
      · simp only [ne_eq, hv, not_false_eq_true, if_false, if_true]
        rfl

/-- Accepted settings are those of the selected preset with what the document says in their
    place. -/
theorem settings_eq_ok (h : doc.settings = .ok s) :
    doc.selected = .ok s.preset ∧ s = doc.overlay s.preset := by
  rw [settings_eq] at h
  split at h
  · cases h
  · split at h
    · obtain ⟨p, hp, hs⟩ := bind_eq_ok.mp h
      split at hs
      · cases hs
      · cases hs
        exact ⟨hp, rfl⟩
    · cases h

end SettingsDocument

/-! ### Settings and their places -/

/-- A setting that a document can name, besides the preset. -/
inductive Setting where
  | contextDepth
  | timeoutMs
  | maxFindings
  | probeEnabled
  | runTypestate
deriving DecidableEq

/-- The value of a setting. -/
inductive SettingValue where
  | number (n : UInt64)
  | switch (b : Bool)
deriving DecidableEq

namespace Setting

/-- Where the setting stands in a document. -/
def path : Setting → List String
  | contextDepth => ["context_depth"]
  | timeoutMs => ["typestate", "timeout_ms"]
  | maxFindings => ["typestate", "max_findings"]
  | probeEnabled => ["probe", "enabled"]
  | runTypestate => ["run_typestate"]

/-- What the document says if `y` stands there. -/
def read? (x : Setting) (y : Yaml) : Option SettingValue :=
  match x with
  | contextDepth | timeoutMs | maxFindings => y.word64?.map .number
  | probeEnabled | runTypestate => y.bool?.map .switch

def value (x : Setting) (s : Settings) : SettingValue :=
  match x with
  | contextDepth => .number s.contextDepth
  | timeoutMs => .number s.typestate.timeoutMs
  | maxFindings => .number s.typestate.maxFindings
  | probeEnabled => .switch s.probe.enabled
  | runTypestate => .switch s.runTypestate

end Setting

namespace Yaml.Document

/-- The document names the preset, or none and means the balanced one. -/
def Selects (d : Document) (p : Preset) : Prop :=
  (∃ v name, d.Says ["preset"] v ∧ v.text? = some name ∧ Preset.ofName name = .ok p) ∨
    (¬ ∃ v, d.Says ["preset"] v) ∧ p = .balanced

/-- The setting is the time limit, and the document has a section for the solver. -/
def Detaches (d : Document) (x : Setting) : Prop :=
  x = .timeoutMs ∧ ∃ m, d.Says ["typestate"] m

end Yaml.Document

namespace SettingsDocument

variable {d : Yaml.Document} {doc : SettingsDocument} {p : Preset}

theorem selects_of_selected (h : ofYaml? d = some doc) (hp : doc.selected = .ok p) :
    d.Selects p := by
  obtain ⟨y, fields, hroot, hfields, hpreset, -⟩ := ofYaml?_eq_some h
  rw [selected] at hp
  rcases Yaml.Fields.optional?_cases hpreset with ⟨hnone, hnull⟩ | ⟨v, name, hv, hnull, hname, hsome⟩
  · rw [hnone] at hp
    cases hp
    refine Or.inr ⟨?_, rfl⟩
    rintro ⟨v, hv⟩
    obtain ⟨hlookup, hv⟩ := (Yaml.Document.says_name_iff hroot hfields).mp hv
    exact hv (hnull v hlookup)
  · rw [hsome] at hp
    exact Or.inl ⟨v, name, (Yaml.Document.says_name_iff hroot hfields).mpr ⟨hv, hnull⟩, hname, hp⟩

/-- The limits that a mapping gives are read from its two fields. -/
theorem limits_of_ofYaml? {m : Yaml} {limits : SolverLimits}
    (h : SolverLimits.ofYaml? d m = some limits) :
    ∃ fields, d.fields? ["timeout_ms", "max_findings"] m = some fields ∧
      fields.orElse? Yaml.word64? "timeout_ms" ({} : SolverLimits).timeoutMs =
        some limits.timeoutMs ∧
      fields.orElse? Yaml.word64? "max_findings" ({} : SolverLimits).maxFindings =
        some limits.maxFindings := by
  rw [SolverLimits.ofYaml?] at h
  simp only [Option.bind_eq_bind, Option.bind_eq_some_iff] at h
  obtain ⟨fields, hfields, timeoutMs, htimeout, maxFindings, hfindings, hlimits⟩ := h
  cases hlimits
  exact ⟨fields, hfields, htimeout, hfindings⟩

theorem switch_of_ofYaml? {m : Yaml} {switch : ProbeSwitch}
    (h : ProbeSwitch.ofYaml? d m = some switch) :
    ∃ fields, d.fields? ["enabled"] m = some fields ∧
      fields.orElse? Yaml.bool? "enabled" true = some switch.enabled := by
  rw [ProbeSwitch.ofYaml?] at h
  simp only [Option.bind_eq_bind, Option.bind_eq_some_iff] at h
  obtain ⟨fields, hfields, enabled, henabled, hswitch⟩ := h
  cases hswitch
  exact ⟨fields, hfields, henabled⟩

/-- Every setting is decided by what stands under its path, and otherwise by the preset `q`: this is
    the selected preset, or the balanced one for a time limit that a section has left out. -/
theorem decides_overlay (h : ofYaml? d = some doc) (x : Setting) {p q : Preset}
    (hdetached : d.Detaches x → q = .balanced) (hattached : ¬ d.Detaches x → q = p) :
    d.Decides x.path x.read? (x.value (doc.overlay p)) (x.value (Settings.ofPreset q)) := by
  obtain ⟨y, fields, hroot, hfields, -, hdepth, htypestate, hprobe, hrun⟩ := ofYaml?_eq_some h
  have hlimits := Yaml.Document.decides_of_optional? hroot hfields htypestate
    (Settings.ofPreset p).typestate
  have hswitch := Yaml.Document.decides_of_optional? hroot hfields hprobe (Settings.ofPreset p).probe
  -- Only the time limit depends on whether there is a section.
  have hsame : x ≠ .timeoutMs → q = p := fun hx => hattached fun hdetaches => hx hdetaches.1
  cases x with
  | contextDepth =>
      rw [hsame Setting.noConfusion]
      exact (Yaml.Document.decides_of_optional? hroot hfields hdepth _).map _
  | timeoutMs =>
      refine Yaml.Document.Decides.map (hlimits.within (fun v hv => (Yaml.reads_of_isNull? hv).1)
        ({} : SolverLimits).timeoutMs (fun m hm => ?_) ?_ ?_) _
      · obtain ⟨fields', hfields', htimeout, -⟩ := limits_of_ofYaml? hm
        exact ⟨_, fields', hfields', htimeout⟩
      · intro hthere
        rw [hdetached ⟨rfl, hthere⟩]
        rfl
      · intro hnone
        rw [hattached fun hdetaches => hnone hdetaches.2]
  | maxFindings =>
      rw [hsame Setting.noConfusion]
      refine Yaml.Document.Decides.map (hlimits.within (fun v hv => (Yaml.reads_of_isNull? hv).1)
        ({} : SolverLimits).maxFindings (fun m hm => ?_) (fun _ => rfl) (fun _ => rfl)) _
      obtain ⟨fields', hfields', -, hfindings⟩ := limits_of_ofYaml? hm
      exact ⟨_, fields', hfields', hfindings⟩
  | probeEnabled =>
      rw [hsame Setting.noConfusion]
      refine Yaml.Document.Decides.map (hswitch.within (fun v hv => (Yaml.reads_of_isNull? hv).2)
        true (fun m hm => ?_) (fun _ => rfl) (fun _ => rfl)) _
      obtain ⟨fields', hfields', henabled⟩ := switch_of_ofYaml? hm
      exact ⟨_, fields', hfields', henabled⟩
  | runTypestate =>
      rw [hsame Setting.noConfusion]
      exact (Yaml.Document.decides_of_optional? hroot hfields hrun _).map _

end SettingsDocument

namespace Settings

variable {text : String} {s : Settings}

theorem ofText_eq_ok (h : ofText text = .ok s) :
    ∃ d doc, Yaml.parse? text = some d ∧ SettingsDocument.ofYaml? d = some doc ∧
      doc.settings = .ok s := by
  rw [ofText] at h
  cases hdoc : (Yaml.parse? text).bind SettingsDocument.ofYaml? with
  | none =>
      rw [hdoc] at h
      cases h
  | some doc =>
      rw [hdoc] at h
      obtain ⟨d, hd, hread⟩ := Option.bind_eq_some_iff.mp hdoc
      exact ⟨d, doc, hd, hread, h⟩

/-- No two presets have the same time limit. -/
theorem timeoutMs_ofPreset_inj {p q : Preset} :
    Setting.timeoutMs.value (ofPreset p) = Setting.timeoutMs.value (ofPreset q) ↔ p = q := by
  cases p <;> cases q <;> decide

/-- In accepted settings every setting that the document names has the value that stands there.
    Every other setting has the value of the selected preset, except for the time limit if the
    document has a section for the solver and selects a preset that is not the balanced one: then
    it has the value of the balanced preset all the same, which is another value. -/
theorem ofText_overrides_iff (h : ofText text = .ok s) :
    ∃ d, Yaml.parse? text = some d ∧ d.Selects s.preset ∧ ∀ x : Setting,
      (∀ v, d.Says x.path v → x.read? v = some (x.value s)) ∧
      ((¬ ∃ v, d.Says x.path v) →
        (x.value s = x.value (ofPreset s.preset) ↔
          ¬ (d.Detaches x ∧ s.preset ≠ .balanced)) ∧
        (d.Detaches x → x.value s = x.value (ofPreset .balanced))) := by
  obtain ⟨d, doc, hd, hread, hsettings⟩ := ofText_eq_ok h
  obtain ⟨hselected, hoverlay⟩ := SettingsDocument.settings_eq_ok hsettings
  refine ⟨d, hd, SettingsDocument.selects_of_selected hread hselected, ?_⟩
  intro x
  by_cases hx : d.Detaches x
  · have hdecides := SettingsDocument.decides_overlay hread x (p := s.preset) (fun _ => rfl)
      (fun hnot => absurd hx hnot)
    rw [← hoverlay] at hdecides
    refine ⟨hdecides.given, fun hnone => ⟨?_, fun _ => hdecides.omitted hnone⟩⟩
    obtain rfl := hx.1
    rw [hdecides.omitted hnone, timeoutMs_ofPreset_inj, eq_comm]
    simp [hx]
  · have hdecides := SettingsDocument.decides_overlay hread x (p := s.preset)
      (fun hdetaches => absurd hdetaches hx) (fun _ => rfl)
    rw [← hoverlay] at hdecides
    refine ⟨hdecides.given, fun hnone => ⟨?_, fun hdetaches => absurd hdetaches hx⟩⟩
    simp [hx, hdecides.omitted hnone]

/-! A document in haste: it wants to be fast and gives one limit of the solver. -/

namespace Hasty

def document : String := "version: 1\npreset: fast\ntypestate:\n  max_findings: 7\n"

theorem read : ∃ s, ofText document = .ok s ∧ s.preset = .fast ∧ s.typestate = ⟨60000, 7⟩ :=
  exists_ok_of_any (by decide +kernel)

theorem said : ∃ d, Yaml.parse? document = some d ∧ (∃ m, d.Says ["typestate"] m) ∧
    (∃ v, d.Says ["typestate", "max_findings"] v) ∧
    (¬ ∃ v, d.Says ["typestate", "timeout_ms"] v) ∧ ¬ ∃ v, d.Says ["context_depth"] v :=
  exists_some_of_any (by decide +kernel)

/-- The limit that is named holds, the depth of call strings is the one of the fast preset, but
    the time limit is the one of the balanced preset. -/
theorem ofText_overrides_iff_hasty :
    ∃ s d, ofText document = .ok s ∧ Yaml.parse? document = some d ∧ d.Selects .fast ∧
      (∃ v, d.Says Setting.maxFindings.path v ∧ Setting.maxFindings.read? v =
        some (Setting.maxFindings.value s)) ∧
      Setting.contextDepth.value s = Setting.contextDepth.value (ofPreset .fast) ∧
      Setting.timeoutMs.value s = Setting.timeoutMs.value (ofPreset .balanced) := by
  obtain ⟨s, hs, hpreset, -⟩ := read
  obtain ⟨d, hd, hsection, ⟨v, hv⟩, htimeout, hdepth⟩ := said
  obtain ⟨d', hd', hselects, hsettings⟩ := ofText_overrides_iff hs
  obtain rfl : d = d' := Option.some.inj (hd.symm.trans hd')
  rw [hpreset] at hselects hsettings
  refine ⟨s, d, hs, hd, hselects, ⟨v, hv, (hsettings .maxFindings).1 v hv⟩, ?_, ?_⟩
  · refine ((hsettings .contextDepth).2 hdepth).1.mpr ?_
    rintro ⟨⟨hcontra, -⟩, -⟩
    cases hcontra
  · exact ((hsettings .timeoutMs).2 htimeout).2 ⟨rfl, hsection⟩

/-- Nothing is said about the time limit, and it is not the one of the selected preset. -/
theorem ofText_not_preset_timeout :
    ∃ s d, ofText document = .ok s ∧ Yaml.parse? document = some d ∧
      (¬ ∃ v, d.Says Setting.timeoutMs.path v) ∧
      Setting.timeoutMs.value s ≠ Setting.timeoutMs.value (ofPreset s.preset) := by
  obtain ⟨s, hs, hpreset, hlimits⟩ := read
  obtain ⟨d, hd, -, -, htimeout, -⟩ := said
  refine ⟨s, d, hs, hd, htimeout, ?_⟩
  rw [hpreset, Setting.value, hlimits]
  decide

end Hasty
end Settings
end StreamVerdict
