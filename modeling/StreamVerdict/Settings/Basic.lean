/-
  Settings of an analysis.

  A preset gives every setting a value; single settings can be changed afterwards.
-/
import StreamVerdict.Typestate.Solver

namespace StreamVerdict

/-- A choice between speed and precision. -/
inductive Preset where
  | fast
  | balanced
  | precise
deriving DecidableEq

namespace Preset

def all : List Preset := [fast, balanced, precise]

def name : Preset → String
  | fast => "fast"
  | balanced => "balanced"
  | precise => "precise"

/-- How many calls a call string keeps. -/
def contextDepth : Preset → UInt64
  | fast => 1
  | balanced => 2
  | precise => 4

def timeoutMs : Preset → UInt64
  | fast => 5000
  | balanced => 60000
  | precise => 300000

end Preset

/-- Whether types are probed for their order. -/
structure ProbeSwitch where
  enabled : Bool := true
deriving DecidableEq

/-- Settings of an analysis. -/
structure Settings where
  preset : Preset
  /-- How many calls a call string keeps. -/
  contextDepth : UInt64
  typestate : SolverLimits
  probe : ProbeSwitch
  /-- Whether the life of the stream is followed. -/
  runTypestate : Bool
deriving DecidableEq

/-- Why settings cannot be used. -/
inductive SettingsError where
  | range (field : String) (value lowest highest : Nat) (hint : String)
  | missingVersion
  | unsupportedVersion (found : UInt32)
  | unknownPreset (name : String)
  /-- The file cannot be read. -/
  | unreadable
  /-- The text is not YAML, or not a document of settings. -/
  | malformed
deriving DecidableEq

namespace SettingsError

def message : SettingsError → String
  | range field value lowest highest hint =>
    "Invalid range for field '" ++ field ++ "': " ++ toString value ++
      " not in " ++ toString lowest ++ "..=" ++ toString highest ++ ". " ++ hint
  | missingVersion =>
    "Missing 'version' field in configuration file. " ++
      "Add 'version: 1' to the top of your YAML file."
  | unsupportedVersion found =>
    "Unsupported configuration version " ++ toString found.toNat ++ ". Supported versions: 1"
  | unknownPreset name =>
    "Unknown preset '" ++ name ++ "'. Valid presets: fast, balanced, precise"
  | unreadable => "The settings cannot be read"
  | malformed => "The settings are malformed"

def label : SettingsError → String
  | range _ _ _ _ _ => "Range"
  | missingVersion => "MissingVersion"
  | unsupportedVersion _ => "UnsupportedVersion"
  | unknownPreset _ => "UnknownPreset"
  | unreadable => "Io"
  | malformed => "Yaml"

instance : Explained SettingsError := ⟨label, message⟩

def toAnalysisError (e : SettingsError) : AnalysisError :=
  AnalysisError.ofCause .settings e.message

end SettingsError

/-- The preset of a name, in small or capital letters. -/
def Preset.ofName (name : String) : Except SettingsError Preset :=
  match all.find? fun p => p.name = Text.lower name with
  | some p => .ok p
  | none => .error (.unknownPreset name)

namespace Settings

/-- All settings of a preset. -/
def ofPreset (p : Preset) : Settings :=
  { preset := p
    contextDepth := p.contextDepth
    typestate := { timeoutMs := p.timeoutMs }
    probe := {}
    runTypestate := true }

/-- The settings that apply if nothing is said. -/
def standard : Settings := ofPreset .balanced

def maxContextDepth : UInt64 := 16

/-- The highest number that a setting can have. -/
def highest : Nat := UInt64.size - 1

/-- The first setting that is out of range. -/
def error? (s : Settings) : Option SettingsError :=
  if s.contextDepth = 0 ∨ maxContextDepth < s.contextDepth then
    some (.range "context_depth" s.contextDepth.toNat 1 maxContextDepth.toNat
      "Call strings must hold at least one frame to reach application code.")
  else if s.typestate.timeoutMs = 0 then
    some (.range "typestate.timeout_ms" 0 1 highest "A zero budget would time out every solve.")
  else if s.typestate.maxFindings = 0 then
    some (.range "typestate.max_findings" 0 1 highest "At least one finding must be allowed.")
  else none

def isValid (s : Settings) : Bool := s.error?.isNone

end Settings
end StreamVerdict
