/-
  Settings, findings and reports as JSON values.
-/
import StreamVerdict.Json.Parser
import StreamVerdict.Json.Printer
import StreamVerdict.Settings.Basic
import StreamVerdict.Verdict.Report
import StreamVerdict.Wire.Probe
import StreamVerdict.Wire.Source

namespace StreamVerdict

open Wire

/-! ### Settings -/

instance : Wire Preset where
  encode p := .text p.name
  decode := oneOf (Preset.all.map fun p => (p.name, p))

instance : Wire SolverLimits where
  encode l := .obj [("timeout_ms", encode l.timeoutMs), ("max_findings", encode l.maxFindings)]
  decode j := do
    let r ← Record.readClosed ["timeout_ms", "max_findings"] j
    let standard : SolverLimits := {}
    return ⟨← r.orElse "timeout_ms" standard.timeoutMs,
      ← r.orElse "max_findings" standard.maxFindings⟩

instance : Wire ProbeSwitch where
  encode s := .obj [("enabled", encode s.enabled)]
  decode j := do
    let r ← Record.readClosed ["enabled"] j
    return ⟨← r.orElse "enabled" true⟩

/-! ### Findings -/

instance : Wire Severity where
  encode s := .text s.name
  decode := oneOf (Severity.all.map fun s => (s.name, s))

instance : Wire FindingKind where
  encode k := .text k.name
  decode := oneOf (FindingKind.all.map fun k => (k.name, k))

instance : Wire Finding where
  encode f := .obj
    [ ("failure", encode f.kind), ("severity", encode f.severity), ("message", encode f.message),
      ("context", encode f.location) ]
  decode j := do
    let r ← Record.read ["failure", "severity", "message", "context"] j
    return ⟨← r.required "failure", ← r.required "severity", ← r.required "message",
      ← r.required "context"⟩

instance : Wire Status where
  encode s := .obj [("findings", encode s.findings)]
  decode j := do
    let r ← Record.read ["findings"] j
    return ⟨← r.required "findings"⟩

/-! ### Reports -/

instance : Wire ExecutionMode where
  encode m := .text m.name
  decode := oneOf (ExecutionMode.all.map fun m => (m.name, m))

namespace Report

/-- The states of the stream; nothing is written if there are none. -/
def lifecycleMembers (states : List String) : List (String × Json) :=
  if states.isEmpty then [] else [("lifecycle", encode states)]

instance : Wire Report where
  encode r := .obj
    ([ ("creation", encode r.creation), ("file_path", encode r.filePath),
       ("line", encode r.line), ("enclosing_method", encode r.enclosingMethod),
       ("execution_mode", encode r.executionMode), ("ordering", encode r.ordering),
       ("severity", encode r.severity), ("transformable", encode r.transformable) ]
      ++ lifecycleMembers r.lifecycle ++ [("findings", encode r.findings)])
  decode j := do
    let r ← Record.read
      ["creation", "file_path", "line", "enclosing_method", "execution_mode", "ordering",
        "severity", "transformable", "lifecycle", "findings"] j
    return { creation := ← r.required "creation"
             filePath := ← r.required "file_path"
             line := ← r.required "line"
             enclosingMethod := ← r.required "enclosing_method"
             executionMode := ← r.required "execution_mode"
             ordering := ← r.required "ordering"
             severity := ← r.required "severity"
             transformable := ← r.required "transformable"
             lifecycle := ← r.orElse "lifecycle" []
             findings := ← r.orElse "findings" [] }

/-- The report as a text for people. -/
def toText (r : Report) : String := (encode r).pretty

/-- Reads a report from a text. -/
def ofText? (text : String) : Option Report := (Json.parse? text).bind decode

end Report
end StreamVerdict
