/-
  Reports come back from their texts.

  What is written for a report, whatever its texts hold, is read as that report.
-/
import StreamVerdict.Proofs.Wire.Lawful
import StreamVerdict.Wire.Verdict

namespace StreamVerdict

open Wire LawfulWire WritableWire

/-! ### Enumerations -/

instance : LawfulWire Severity where
  decode_rearranged s _ := oneOf_name (by decide) (by cases s <;> decide)

instance : WritableWire Severity := ⟨0, fun _ => .text⟩

instance : LawfulWire FindingKind where
  decode_rearranged k _ := oneOf_name (by decide) (by cases k <;> decide)

instance : WritableWire FindingKind := ⟨0, fun _ => .text⟩

instance : LawfulWire ExecutionMode where
  decode_rearranged m _ := oneOf_name (by decide) (by cases m <;> decide)

instance : WritableWire ExecutionMode := ⟨0, fun _ => .text⟩

instance : LawfulWire SourceOrder where
  decode_rearranged o _ := oneOf_name (by decide) (by cases o <;> decide)

instance : WritableWire SourceOrder := ⟨0, fun _ => .text⟩

/-! ### Findings -/

instance : LawfulWire Span where
  decode_rearranged s j hj := by
    refine Record.bind_read (List.Sublist.refl _) (by decide) hj fun ms hms => ?_
    iterate 4 refine Record.bind_required hms (by decide) rfl ?_
    rfl

instance : WritableWire Span where
  height := 1
  writable s := by
    refine WritableMembers.obj ?_
    iterate 4 refine .cons (by decide) (by decide) ?_
    exact .nil

instance : LawfulWire SourceLocation where
  decode_rearranged l j hj := by
    refine Record.bind_read (List.Sublist.refl _) (by decide) hj fun ms hms => ?_
    iterate 2 refine Record.bind_required hms (by decide) rfl ?_
    rfl

instance : WritableWire SourceLocation where
  height := 2
  writable l := by
    refine WritableMembers.obj ?_
    iterate 2 refine .cons (by decide) (by decide) ?_
    exact .nil

instance : LawfulWire Finding where
  decode_rearranged f j hj := by
    refine Record.bind_read (List.Sublist.refl _) (by decide) hj fun ms hms => ?_
    iterate 4 refine Record.bind_required hms (by decide) rfl ?_
    rfl

instance : WritableWire Finding where
  height := 3
  writable f := by
    refine WritableMembers.obj ?_
    iterate 4 refine .cons (by decide) (by decide) ?_
    exact .nil

/-! ### Reports -/

namespace Report

/-- The states are left out if there are none, and then none are read. -/
instance : LawfulWire Report where
  decode_rearranged r j hj := by
    obtain ⟨creation, filePath, line, enclosingMethod, executionMode, ordering, severity,
      transformable, lifecycle, findings⟩ := r
    refine Record.bind_read ?_ (by decide) hj fun ms hms => ?_
    · cases lifecycle with
      | nil =>
          show [ "creation", "file_path", "line", "enclosing_method", "execution_mode",
            "ordering", "severity", "transformable", "findings" ].Sublist _
          decide
      | cons state states => exact List.Sublist.refl _
    iterate 8 refine Record.bind_required hms (by decide) rfl ?_
    -- The states are not given if there are none; the findings are given always.
    cases lifecycle with
    | nil =>
        refine Record.bind_orElse_omitted hms (by decide) rfl ?_
        refine Record.bind_orElse hms (by decide) rfl ?_
        rfl
    | cons state states =>
        refine Record.bind_orElse hms (by decide) rfl ?_
        refine Record.bind_orElse hms (by decide) rfl ?_
        rfl

theorem writableMembers_lifecycle (states : List String) :
    WritableMembers 4 (lifecycleMembers states) := by
  rw [lifecycleMembers]
  split
  · exact .nil
  · exact .cons (by decide) (by decide) .nil

instance : WritableWire Report where
  height := 5
  writable r := by
    refine WritableMembers.obj (.append (.append ?_ (writableMembers_lifecycle r.lifecycle)) ?_)
    · iterate 8 refine .cons (by decide) (by decide) ?_
      exact .nil
    · exact .cons (by decide) (by decide) .nil

/-- Every report is read from the text that is written for it, whatever characters its texts
    hold, and with or without states and findings. -/
theorem ofText?_toText (r : Report) : ofText? r.toText = some r :=
  decode_parse?_pretty (by decide) r

end Report
end StreamVerdict
