/-
  Settings as a YAML document.

  A document names a version, and if it likes a preset and single settings.  What it does not
  name has the value of the preset; but a mapping for the solver's limits or for the probe
  stands for all of them, and what is left out there has the standard value.
-/
import StreamVerdict.Settings.Basic
import StreamVerdict.Yaml.Parser

namespace StreamVerdict

/-! ### Records in YAML -/

namespace Yaml

/-- A number of 64 bits. -/
def word64? (y : Yaml) : Option UInt64 := (y.natBelow? UInt64.size).map UInt64.ofNat

/-- A number of 32 bits. -/
def word32? (y : Yaml) : Option UInt32 := (y.natBelow? UInt32.size).map UInt32.ofNat

/-- The fields of a mapping by their names; aliases are replaced by what they stand for. -/
abbrev Fields := List (String × Yaml)

/-- The values of the fields `names` in a mapping; other keys and repetitions are refused. -/
def Document.fields? (d : Document) (names : List String) (y : Yaml) : Option Fields := do
  let fields ← (← y.entries?).mapM fun e => do
    return (← (← d.node? e.1).text?, ← d.node? e.2)
  if (fields.all fun f => f.1 ∈ names) ∧ (fields.map Prod.fst).Nodup then some fields else none

namespace Fields

/-- A field that may be left out or null. -/
def optional? {α : Type} (f : Yaml → Option α) (fields : Fields) (name : String) :
    Option (Option α) :=
  match fields.lookup name with
  | none => some none
  | some v => do
    if ← v.isNull? then return none else return some (← f v)

/-- A field that has the value `d` when it is left out. -/
def orElse? {α : Type} (f : Yaml → Option α) (fields : Fields) (name : String) (d : α) : Option α :=
  match fields.lookup name with
  | none => some d
  | some v => f v

end Fields
end Yaml

/-- The limits that a mapping gives. -/
def SolverLimits.ofYaml? (d : Yaml.Document) (y : Yaml) : Option SolverLimits := do
  let fields ← d.fields? ["timeout_ms", "max_findings"] y
  let standard : SolverLimits := {}
  return { timeoutMs := ← fields.orElse? Yaml.word64? "timeout_ms" standard.timeoutMs
           maxFindings := ← fields.orElse? Yaml.word64? "max_findings" standard.maxFindings }

/-- The switch that a mapping gives. -/
def ProbeSwitch.ofYaml? (d : Yaml.Document) (y : Yaml) : Option ProbeSwitch := do
  let fields ← d.fields? ["enabled"] y
  return { enabled := ← fields.orElse? Yaml.bool? "enabled" true }

/-! ### Documents -/

/-- What a document says, before it is checked. -/
structure SettingsDocument where
  version : Option UInt32
  preset : Option String
  contextDepth : Option UInt64
  typestate : Option SolverLimits
  probe : Option ProbeSwitch
  runTypestate : Option Bool
deriving DecidableEq

namespace SettingsDocument

def names : List String :=
  ["version", "preset", "context_depth", "typestate", "probe", "run_typestate"]

/-- Reads a YAML document as a document of settings. -/
def ofYaml? (d : Yaml.Document) : Option SettingsDocument := do
  let fields ← d.fields? names (← d.node? d.root)
  return { version := ← fields.optional? Yaml.word32? "version"
           preset := ← fields.optional? Yaml.text? "preset"
           contextDepth := ← fields.optional? Yaml.word64? "context_depth"
           typestate := ← fields.optional? (SolverLimits.ofYaml? d) "typestate"
           probe := ← fields.optional? (ProbeSwitch.ofYaml? d) "probe"
           runTypestate := ← fields.optional? Yaml.bool? "run_typestate" }

/-- The settings of the preset with what the document says in their place. -/
def overlay (d : SettingsDocument) (p : Preset) : Settings :=
  let base := Settings.ofPreset p
  { preset := p
    contextDepth := d.contextDepth.getD base.contextDepth
    typestate := d.typestate.getD base.typestate
    probe := d.probe.getD base.probe
    runTypestate := d.runTypestate.getD base.runTypestate }

/-- The settings that a document asks for.  The version is checked first, then the preset, then
    the ranges. -/
def settings (d : SettingsDocument) : Except SettingsError Settings := do
  match d.version with
  | none => throw .missingVersion
  | some v =>
    if v ≠ 1 then throw (.unsupportedVersion v)
    let p ← match d.preset with
      | none => pure Preset.balanced
      | some name => Preset.ofName name
    let s := d.overlay p
    match s.error? with
    | some e => throw e
    | none => return s

end SettingsDocument

namespace Settings

/-- Reads settings from a text. -/
def ofText (text : String) : Except SettingsError Settings :=
  match (Yaml.parse? text).bind SettingsDocument.ofYaml? with
  | some d => d.settings
  | none => .error .malformed

/-- Reads settings from the content of a file, which may not be readable. -/
def ofFile (content? : Option String) : Except SettingsError Settings :=
  match content? with
  | some text => ofText text
  | none => .error .unreadable

/-- A truth value as it is written. -/
def switch (b : Bool) : String := if b then "true" else "false"

/-- Settings as a document that names every one of them, line by line. -/
def lines (s : Settings) : List String :=
  [ "version: 1",
    "preset: " ++ s.preset.name,
    "context_depth: " ++ toString s.contextDepth.toNat,
    "typestate:",
    "  timeout_ms: " ++ toString s.typestate.timeoutMs.toNat,
    "  max_findings: " ++ toString s.typestate.maxFindings.toNat,
    "probe:",
    "  enabled: " ++ switch s.probe.enabled,
    "run_typestate: " ++ switch s.runTypestate ]

/-- Settings as a text. -/
def toText (s : Settings) : String := String.join (s.lines.map fun l => l ++ "\n")

end Settings
end StreamVerdict
